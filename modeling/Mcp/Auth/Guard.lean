import Mcp.Auth.Provider
import Mcp.Lib.Threads

namespace Mcp.Auth.Guard
open Mcp.Lib Bytes Function

-- The decoded members, `none` where one is missing or has another type. The numbers are what the conversion of the
-- float64 to an integer gives.
structure Transmission where
  version : Option Int
  timestamp : Option Int
  nonce : Option Bytes
  token : Option Bytes

inductive Error where
  | format
  | data
  | invalidVersion
  | missingTimestamp
  | expired
  | missingNonce
  | nonceUsed
  | missingToken
deriving DecidableEq

inductive Phase where
  | arrived
  | checked (nonce : Bytes) (token : Option Bytes)
  | stamped (nonce : Bytes) (token : Option Bytes) (stamp : Int)
  | claimed (nonce : Bytes) (stamp : Int) (result : Except Error Bytes)
  | failed (e : Error)

structure Call where
  transmitted : Bytes
  phase : Phase := .arrived

structure State where
  now : Int
  nonceCache : Bytes → Option Int := fun _ => none
  cutoff : Option Int := none
  calls : List Call := []

inductive Label where
  | wait (d : Nat)
  | arrive (transmitted : Bytes)
  | step (i : Nat)
  | tick
  | sweep (nonce : Bytes)

-- Seconds from the year 1 to 1970; adding them wraps.
def unixToInternal : Int := 62135596800

def timeUnix (sec : Int) : Int := (wrap (sec + unixToInternal) - unixToInternal) * second

def newMaxAge (maxAge : Int) : Int := if maxAge ≤ 0 then 5 * 60 * second else maxAge

abbrev Decoder := Bytes → Except Error Transmission

def check (decode : Decoder) (maxAge : Int) (transmitted : Bytes) (now : Int) : Phase :=
  match decode transmitted with
  | .error e => .failed e
  | .ok transmission =>
    if transmission.version ≠ some 1 then .failed .invalidVersion
    else match transmission.timestamp with
      | none => .failed .missingTimestamp
      | some timestamp =>
        if timeSub now (timeUnix timestamp) > maxAge then .failed .expired
        else match transmission.nonce with
          | none => .failed .missingNonce
          | some nonce => .checked nonce transmission.token

def claim (s : State) (i : Nat) (call : Call) (nonce : Bytes) (token : Option Bytes) (stamp : Int) : State :=
  match s.nonceCache nonce with
  | some _ => { s with calls := s.calls.set i { call with phase := .failed .nonceUsed } }
  | none =>
    let result := match token with
      | some token => .ok token
      | none => .error .missingToken
    { s with
      nonceCache := update s.nonceCache nonce (some stamp)
      calls := s.calls.set i { call with phase := .claimed nonce stamp result } }

def stepCall (decode : Decoder) (maxAge : Int) (s : State) (i : Nat) (call : Call) : Option State :=
  match call.phase with
  | .arrived =>
    some { s with calls := s.calls.set i { call with phase := check decode maxAge call.transmitted s.now } }
  | .checked nonce token => some { s with calls := s.calls.set i { call with phase := .stamped nonce token s.now } }
  | .stamped nonce token stamp => some (claim s i call nonce token stamp)
  | .claimed .. | .failed _ => none

def sweep (s : State) (nonce : Bytes) : State :=
  match s.cutoff, s.nonceCache nonce with
  | some cutoff, some stamp =>
    if stamp < cutoff then { s with nonceCache := update s.nonceCache nonce none } else s
  | _, _ => s

def machine (decode : Decoder) (maxAge begin : Int) : Machine State Label where
  start := { now := begin }
  step s
    | .wait d => some { s with now := s.now + d }
    | .arrive transmitted => some { s with calls := s.calls ++ [{ transmitted := transmitted }] }
    | .step i => s.calls[i]?.bind (stepCall decode (newMaxAge maxAge) s i)
    | .tick => some { s with cutoff := some (s.now + wrap (-newMaxAge maxAge * 2)) }
    | .sweep nonce => some (sweep s nonce)

def Phase.nonce? : Phase → Option Bytes
  | .checked nonce _ | .stamped nonce _ _ | .claimed nonce _ _ => some nonce
  | _ => none

def Call.Carries (decode : Decoder) (call : Call) (nonce : Bytes) : Prop :=
  ∃ transmission, decode call.transmitted = .ok transmission ∧ transmission.nonce = some nonce

def Call.Succeeds (call : Call) : Prop := ∃ nonce stamp token, call.phase = .claimed nonce stamp (.ok token)

/-- No two calls whose transmissions carry one nonce succeed. -/
def NoReplay (decode : Decoder) (s : State) : Prop :=
  ∀ (i j : Nat) x y nonce, s.calls[i]? = some x → s.calls[j]? = some y → x.Carries decode nonce →
    y.Carries decode nonce → x.Succeeds → y.Succeeds → i = j

/-- A nonce that is claimed again was not old enough for any cleanup so far. -/
def recent (s : State) : Label → Bool
  | .step i =>
    match s.calls[i]? with
    | some ⟨_, .stamped nonce _ _⟩ => s.calls.all fun call =>
      match call.phase with
      | .claimed nonce' stamp _ => nonce' ≠ nonce ∨ s.cutoff.all (· ≤ stamp)
      | _ => true
    | _ => true
  | _ => true

structure Remembered (decode : Decoder) (maxAge : Int) (s : State) : Prop where
  carried : ∀ x ∈ s.calls, ∀ nonce, x.phase.nonce? = some nonce → x.Carries decode nonce
  cutoff : ∀ cutoff, s.cutoff = some cutoff → cutoff ≤ s.now + wrap (-newMaxAge maxAge * 2)
  known : ∀ (i : Nat) x nonce stamp result, s.calls[i]? = some x → x.phase = .claimed nonce stamp result →
    s.nonceCache nonce = some stamp ∨ ∃ cutoff, s.cutoff = some cutoff ∧ stamp < cutoff
  unique : ∀ (i j : Nat) x y nonce stamp stamp' result result', s.calls[i]? = some x → s.calls[j]? = some y →
    x.phase = .claimed nonce stamp result → y.phase = .claimed nonce stamp' result' → i = j

variable {decode : Decoder} {maxAge : Int} {s : State} {x : Call}

open Mcp.Lib.System (getElem?_set_cases getElem?_concat_cases)

theorem check_phase (decode : Decoder) (maxAge : Int) (transmitted : Bytes) (now : Int) :
    (∃ e, check decode maxAge transmitted now = .failed e) ∨
      ∃ nonce transmission, decode transmitted = .ok transmission ∧ transmission.nonce = some nonce ∧
        check decode maxAge transmitted now = .checked nonce transmission.token := by
  unfold check
  cases decoded : decode transmitted with
  | error e => exact .inl ⟨e, rfl⟩
  | ok transmission =>
    simp only
    split_ifs
    · exact .inl ⟨_, rfl⟩
    · cases transmission.timestamp with
      | none => exact .inl ⟨_, rfl⟩
      | some timestamp =>
        simp only
        split_ifs
        · exact .inl ⟨_, rfl⟩
        · cases named : transmission.nonce with
          | none => exact .inl ⟨_, rfl⟩
          | some nonce => exact .inr ⟨nonce, transmission, rfl, named, rfl⟩

section Steps
variable (remembered : Remembered decode maxAge s)

include remembered

theorem Remembered.frame {calls : List Call}
    (carried : ∀ x ∈ calls, ∀ nonce, x.phase.nonce? = some nonce → x.Carries decode nonce)
    (before : ∀ (i : Nat) x nonce stamp result, calls[i]? = some x → x.phase = .claimed nonce stamp result →
      s.calls[i]? = some x) : Remembered decode maxAge { s with calls := calls } where
  cutoff := remembered.cutoff
  carried := carried
  known i x nonce stamp result found claimed :=
    remembered.known i x nonce stamp result (before i x nonce stamp result found claimed) claimed
  unique i j x y nonce stamp stamp' result result' found found' claimed claimed' :=
    remembered.unique i j x y nonce stamp stamp' result result' (before i x nonce stamp result found claimed)
      (before j y nonce stamp' result' found' claimed') claimed claimed'

variable {i : Nat} {nonce : Bytes} {token : Option Bytes} {stamp : Int} {s' : State}

theorem Remembered.set (carried : ∀ nonce, x.phase.nonce? = some nonce → x.Carries decode nonce)
    (unclaimed : ∀ nonce stamp result, x.phase ≠ .claimed nonce stamp result) :
    Remembered decode maxAge { s with calls := s.calls.set i x } := by
  apply remembered.frame
  · intro y member nonce named
    rcases List.mem_or_eq_of_mem_set member with old | rfl
    · exact remembered.carried y old nonce named
    · exact carried nonce named
  · intro j y nonce stamp result found claimed
    obtain ⟨-, rfl⟩ | ⟨-, old⟩ := getElem?_set_cases found
    · exact absurd claimed (unclaimed nonce stamp result)
    · exact old

theorem Remembered.arrive (transmitted : Bytes) :
    Remembered decode maxAge { s with calls := s.calls ++ [{ transmitted := transmitted }] } := by
  apply remembered.frame
  · intro y member nonce named
    rcases List.mem_append.mp member with old | new
    · exact remembered.carried y old nonce named
    · cases List.mem_singleton.mp new
      cases named
  · intro j y nonce stamp result found claimed
    obtain ⟨-, rfl⟩ | ⟨-, old⟩ := getElem?_concat_cases found
    · cases claimed
    · exact old

theorem Remembered.unclaimed (found : s.calls[i]? = some x) (phase : x.phase = .stamped nonce token stamp)
    (allowed : recent s (.step i) = true) (cached : s.nonceCache nonce = none) {j : Nat} {y : Call} {stamp' : Int}
    {result : Except Error Bytes} (found' : s.calls[j]? = some y) : y.phase ≠ .claimed nonce stamp' result := by
  intro claimed
  obtain ⟨transmitted, phase'⟩ := x
  subst phase
  simp only [recent, found, List.all_eq_true] at allowed
  have young := allowed y (List.mem_of_getElem? found')
  simp only [claimed, ne_eq, not_true_eq_false, false_or, decide_eq_true_eq] at young
  obtain held | ⟨cutoff, limit, old⟩ := remembered.known j y nonce stamp' result found' claimed
  · cases cached.symm.trans held
  · rw [limit, Option.all_some, decide_eq_true_eq] at young
    omega

theorem Remembered.claim (found : s.calls[i]? = some x) (phase : x.phase = .stamped nonce token stamp)
    (allowed : recent s (.step i) = true) : Remembered decode maxAge (claim s i x nonce token stamp) := by
  have carries : x.Carries decode nonce :=
    remembered.carried x (List.mem_of_getElem? found) nonce (by simp [phase, Phase.nonce?])
  unfold Guard.claim
  cases cached : s.nonceCache nonce with
  | some old => exact remembered.set (fun _ named => by cases named) (fun _ _ _ claimed => by cases claimed)
  | none =>
    have other {j : Nat} {y : Call} {stamp' : Int} {result : Except Error Bytes} (found' : s.calls[j]? = some y) :
        y.phase ≠ .claimed nonce stamp' result := remembered.unclaimed found phase allowed cached found'
    refine ⟨?_, remembered.cutoff, ?_, ?_⟩
    · intro y member nonce' named
      rcases List.mem_or_eq_of_mem_set member with old | rfl
      · exact remembered.carried y old nonce' named
      · cases named
        exact carries
    · intro j y nonce' stamp' result' found' claimed
      obtain ⟨-, rfl⟩ | ⟨-, old⟩ := getElem?_set_cases found'
      · cases claimed
        exact .inl (update_self ..)
      · have differs : nonce' ≠ nonce := by
          rintro rfl
          exact other old claimed
        exact (remembered.known j y nonce' stamp' result' old claimed).imp_left (update_of_ne differs ..).trans
    · intro j k y z nonce' stamp₁ stamp₂ result₁ result₂ found₁ found₂ claimed₁ claimed₂
      obtain ⟨atI, rfl⟩ | ⟨-, old₁⟩ := getElem?_set_cases found₁
      · obtain ⟨atI', -⟩ | ⟨-, old₂⟩ := getElem?_set_cases found₂
        · exact atI.trans atI'.symm
        · cases claimed₁
          exact absurd claimed₂ (other old₂)
      · obtain ⟨-, rfl⟩ | ⟨-, old₂⟩ := getElem?_set_cases found₂
        · cases claimed₂
          exact absurd claimed₁ (other old₁)
        · exact remembered.unique j k y z nonce' stamp₁ stamp₂ result₁ result₂ old₁ old₂ claimed₁ claimed₂

theorem Remembered.stepCall (found : s.calls[i]? = some x) (allowed : recent s (.step i) = true)
    (step : stepCall decode (newMaxAge maxAge) s i x = some s') : Remembered decode maxAge s' := by
  unfold Guard.stepCall at step
  cases phase : x.phase <;> simp only [phase, reduceCtorEq, Option.some.injEq] at step <;> subst step
  case arrived =>
    obtain ⟨e, failed⟩ | ⟨nonce, transmission, decoded, named, checked⟩ :=
      check_phase decode (newMaxAge maxAge) x.transmitted s.now
    · exact remembered.set (by simp [failed, Phase.nonce?]) (by simp [failed])
    · refine remembered.set (fun nonce' same => ⟨transmission, decoded, ?_⟩) (by simp [checked])
      simp only [checked, Phase.nonce?] at same
      exact named.trans same
  case checked nonce token =>
    refine remembered.set (fun nonce' same => ?_) (by simp)
    exact remembered.carried x (List.mem_of_getElem? found) nonce' (by rw [phase]; exact same)
  case stamped nonce token stamp => exact remembered.claim found phase allowed

theorem Remembered.sweep (nonce : Bytes) :
    Remembered decode maxAge (sweep s nonce) := by
  unfold Guard.sweep
  cases limit : s.cutoff with
  | none => exact remembered
  | some cutoff =>
    cases cached : s.nonceCache nonce with
    | none => exact remembered
    | some stamp =>
      simp only
      split_ifs with old
      · refine ⟨remembered.carried, ?_, ?_, remembered.unique⟩
        · intro cutoff' same
          exact remembered.cutoff cutoff' (limit.trans same)
        · intro i y nonce' stamp' result found claimed
          have known := remembered.known i y nonce' stamp' result found claimed
          rw [limit] at known
          by_cases same : nonce' = nonce
          · subst same
            obtain held | gone := known
            · cases cached.symm.trans held
              exact .inr ⟨cutoff, rfl, old⟩
            · exact .inr gone
          · exact known.imp_left (update_of_ne same ..).trans
      · exact remembered

theorem Remembered.tick :
    Remembered decode maxAge { s with cutoff := some (s.now + wrap (-newMaxAge maxAge * 2)) } := by
  refine ⟨remembered.carried, ?_, ?_, remembered.unique⟩
  · rintro cutoff ⟨⟩
    exact Int.le_refl _
  · intro i y nonce stamp result found claimed
    refine (remembered.known i y nonce stamp result found claimed).imp_right ?_
    rintro ⟨cutoff, limit, old⟩
    exact ⟨_, rfl, lt_of_lt_of_le old (remembered.cutoff cutoff limit)⟩

theorem Remembered.step {begin : Int} {l : Label} (allowed : recent s l = true)
    (step : (machine decode maxAge begin).step s l = some s') : Remembered decode maxAge s' := by
  cases l with
  | wait d =>
    cases step
    refine ⟨remembered.carried, fun cutoff same => ?_, remembered.known, remembered.unique⟩
    have before := remembered.cutoff cutoff same
    change _ ≤ s.now + d + _
    omega
  | arrive transmitted =>
    cases step
    exact remembered.arrive transmitted
  | step i =>
    obtain ⟨x, found, step⟩ := Option.bind_eq_some_iff.mp step
    exact remembered.stepCall found allowed step
  | tick =>
    cases step
    exact remembered.tick
  | sweep nonce =>
    cases step
    exact remembered.sweep nonce

end Steps

/-- If no nonce is claimed again after a cleanup for which it was old enough, no nonce is accepted twice. -/
theorem no_replay (begin : Int) (labels : List Label)
    (each : (machine decode maxAge begin).EachStep (fun s l => recent s l = true)
      (machine decode maxAge begin).start labels)
    (run : (machine decode maxAge begin).run (machine decode maxAge begin).start labels = some s) :
    NoReplay decode s := by
  have remembered : Remembered decode maxAge s := by
    refine Machine.run_invariant_of_eachStep (fun _ _ _ holds allowed step => holds.step allowed step) ?_ each run
    constructor <;> simp [machine]
  intro i j x y nonce found found' carries carries' succeeds succeeds'
  obtain ⟨nonce₁, stamp₁, token₁, phase₁⟩ := succeeds
  obtain ⟨nonce₂, stamp₂, token₂, phase₂⟩ := succeeds'
  have same {z : Call} {k : Nat} {n : Bytes} (found : s.calls[k]? = some z) (carries : z.Carries decode nonce)
      (named : z.phase.nonce? = some n) : n = nonce := by
    obtain ⟨t, decoded, given⟩ := carries
    obtain ⟨t', decoded', given'⟩ := remembered.carried z (List.mem_of_getElem? found) n named
    cases decoded.symm.trans decoded'
    cases given.symm.trans given'
    rfl
  cases same (n := nonce₁) found carries (by simp [phase₁, Phase.nonce?])
  cases same (n := nonce₂) found' carries' (by simp [phase₂, Phase.nonce?])
  exact remembered.unique i j x y nonce stamp₁ stamp₂ _ _ found found' phase₁ phase₂

def sample : Bytes := ofString "eyJub25jZSI6Im4iLCJ0aW1lc3RhbXAiOjEwMDAsInRva2VuIjoidCIsInZlcnNpb24iOjF9"

def sampleDecode : Decoder := fun transmitted =>
  if transmitted = sample then
    .ok { version := some 1, timestamp := some 1000, nonce := some (ofString "n"), token := some (ofString "t") }
  else .error .format

def replayRun : List Label :=
  [.arrive sample, .arrive sample, .step 0, .step 1, .step 1, .step 0, .step 0, .tick, .sweep (ofString "n"),
    .wait 601000000000, .step 1]

def Call.succeeds (call : Call) : Bool :=
  match call.phase with
  | .claimed _ _ (.ok _) => true
  | _ => false

theorem no_replay_late : ∃ s,
    (machine sampleDecode 0 0).run (machine sampleDecode 0 0).start replayRun = some s ∧
      s.calls.map Call.succeeds = [true, false] ∧ NoReplay sampleDecode s := by
  have facts : ((machine sampleDecode 0 0).run (machine sampleDecode 0 0).start replayRun).map
      (fun s => s.calls.map Call.succeeds) = some [true, false] := by
    decide +kernel
  obtain ⟨s, run, succeeded⟩ := Option.map_eq_some_iff.mp facts
  exact ⟨s, run, succeeded, no_replay 0 replayRun (Machine.eachStep_of_checks (by decide +kernel)) run⟩

def forgottenRun : List Label :=
  [.arrive sample, .step 0, .step 0, .step 0, .wait 601000000000, .tick, .sweep (ofString "n"), .arrive sample, .step 1,
    .step 1, .step 1]

theorem replay_forgotten : ∃ s,
    (machine sampleDecode 0 0).run (machine sampleDecode 0 0).start forgottenRun = some s ∧
      ¬ NoReplay sampleDecode s := by
  have facts : ((machine sampleDecode 0 0).run (machine sampleDecode 0 0).start forgottenRun).map
      (fun s => s.calls.map fun x => (x.succeeds, x.transmitted)) = some [(true, sample), (true, sample)] := by
    decide +kernel
  obtain ⟨s, run, outcomes⟩ := Option.map_eq_some_iff.mp facts
  obtain ⟨x, rest, calls, first, outcomes⟩ := List.map_eq_cons_iff.mp outcomes
  obtain ⟨y, rest', rfl, second, -⟩ := List.map_eq_cons_iff.mp outcomes
  have both {z : Call} (same : (z.succeeds, z.transmitted) = (true, sample)) :
      z.Carries sampleDecode (ofString "n") ∧ z.Succeeds := by
    obtain ⟨succeeds, transmitted⟩ := Prod.mk.inj same
    refine ⟨⟨_, by rw [transmitted, sampleDecode, if_pos rfl], rfl⟩, ?_⟩
    unfold Call.succeeds at succeeds
    split at succeeds
    · exact ⟨_, _, _, by assumption⟩
    · cases succeeds
  refine ⟨s, run, fun noReplay => ?_⟩
  have same := noReplay 0 1 x y (ofString "n") (by simp [calls]) (by simp [calls]) (both first).1 (both second).1
    (both first).2 (both second).2
  cases same

end Mcp.Auth.Guard
