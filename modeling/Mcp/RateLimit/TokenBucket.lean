import Mcp.Auth.Provider
import Mcp.Lib.Metering
import Mcp.Lib.Pool
import Mathlib.Algebra.Order.Field.Basic

namespace Mcp.RateLimit
open Mcp.Lib Mcp.Auth

structure RateLimitRule where
  requestsPerSecond : Int
  burstSize : Int
  windowSize : Int

def seconds (d : Int) : ℚ := d / second

-- `Duration.Seconds`, where every operation on floats is rounded
def secondsBy (rounding : ℚ → ℚ) (d : Int) : ℚ :=
  rounding (rounding (d.tdiv second) + rounding (rounding (d.tmod second) / second))

def Ordered (begin : Int) (calls : List (Int × Int)) : Prop := (begin :: calls.map Prod.fst).Pairwise (· ≤ ·)

structure TokenBucket where
  tokens : ℚ
  lastFill : Int
  rate : ℚ
  burst : Int
  lastSeen : Int
deriving DecidableEq

def newTokenBucketBy (rounding : ℚ → ℚ) (rate : ℚ) (burst now : Int) : TokenBucket :=
  { tokens := rounding burst, lastFill := now, rate := rounding rate, burst := burst, lastSeen := now }

def newTokenBucket : ℚ → Int → Int → TokenBucket := newTokenBucketBy id

namespace TokenBucket

def refillBy (rounding : ℚ → ℚ) (b : TokenBucket) (now : Int) : TokenBucket :=
  { b with
    tokens := min (rounding b.burst)
      (rounding (b.tokens + rounding (secondsBy rounding (timeSub now b.lastFill) * b.rate)))
    lastFill := now
    lastSeen := now }

def allowNBy (rounding : ℚ → ℚ) (b : TokenBucket) (n now : Int) : TokenBucket × Bool :=
  let b := b.refillBy rounding now
  if rounding n ≤ b.tokens then ({ b with tokens := rounding (b.tokens - rounding n) }, true) else (b, false)

-- the bucket of exact rationals
def refill : TokenBucket → Int → TokenBucket := refillBy id

def allowN : TokenBucket → Int → Int → TokenBucket × Bool := allowNBy id

def allowAll (b : TokenBucket) : List (Int × Int) → TokenBucket × List (Int × ℚ)
  | [] => (b, [])
  | (now, n) :: calls =>
    let next := b.allowN n now
    let rest := next.1.allowAll calls
    (rest.1, if next.2 then (now, (n : ℚ)) :: rest.2 else rest.2)

def supply (rate : ℚ) (t : Int) : ℚ := rate * seconds t

variable {t u : Int} {rate : ℚ}

theorem seconds_mono (before : t ≤ u) : seconds t ≤ seconds u := by
  have positive : (0 : ℚ) ≤ second := by norm_num [second]
  exact div_le_div_of_nonneg_right (Int.cast_le.mpr before) positive

theorem seconds_sub (t u : Int) : seconds (t - u) = seconds t - seconds u := by
  simp [seconds, sub_div]

theorem secondsBy_id (d : Int) : secondsBy id d = seconds d := by
  have positive : (second : ℚ) ≠ 0 := by norm_num [second]
  have parts : ((d.tdiv second : Int) : ℚ) * second + (d.tmod second : Int) = d := by
    exact_mod_cast Int.tdiv_mul_add_tmod d second
  show ((d.tdiv second : Int) : ℚ) + (d.tmod second : Int) / (second : ℚ) = d / second
  rw [eq_div_iff positive, add_mul, div_mul_cancel₀ _ positive, parts]

theorem supply_mono (nonneg : 0 ≤ rate) (t u : Int) (before : t ≤ u) : supply rate t ≤ supply rate u :=
  mul_le_mul_of_nonneg_left (seconds_mono before) nonneg

theorem supply_sub (rate : ℚ) (t u : Int) : supply rate t - supply rate u = rate * seconds (t - u) := by
  rw [seconds_sub, mul_sub]
  rfl

theorem timeSub_le (before : u ≤ t) : timeSub t u ≤ t - u := by
  unfold timeSub minInt maxInt
  omega

theorem timeSub_nonneg (before : u ≤ t) : 0 ≤ timeSub t u := by
  unfold timeSub minInt maxInt
  omega

variable {b : TokenBucket} {log : List (Int × ℚ)} {n now : Int}

theorem refill_eq (b : TokenBucket) (now : Int) :
    b.refill now = { b with
      tokens := min (b.burst : ℚ) (b.tokens + seconds (timeSub now b.lastFill) * b.rate)
      lastFill := now
      lastSeen := now } := by
  rw [← secondsBy_id]
  rfl

theorem elapsed_nonneg (rate : 0 ≤ b.rate) (later : b.lastFill ≤ now) :
    0 ≤ seconds (timeSub now b.lastFill) * b.rate := by
  have zero : seconds 0 = 0 := by simp [seconds]
  exact mul_nonneg (zero ▸ seconds_mono (timeSub_nonneg later)) rate

theorem elapsed_le (rate : 0 ≤ b.rate) (later : b.lastFill ≤ now) :
    seconds (timeSub now b.lastFill) * b.rate ≤ supply b.rate now - supply b.rate b.lastFill := by
  rw [supply_sub, mul_comm]
  exact mul_le_mul_of_nonneg_left (seconds_mono (timeSub_le later)) rate

theorem allowN_of_le (enough : (n : ℚ) ≤ (b.refill now).tokens) :
    b.allowN n now = ({ b.refill now with tokens := (b.refill now).tokens - n }, true) := if_pos enough

theorem allowN_of_not_le (short : ¬ (n : ℚ) ≤ (b.refill now).tokens) :
    b.allowN n now = (b.refill now, false) := if_neg short

def Meters (b : TokenBucket) (log : List (Int × ℚ)) : Prop :=
  Metered (supply b.rate) b.burst log b.lastFill b.tokens

theorem Meters.refill (rate : 0 ≤ b.rate) (meters : b.Meters log) (later : b.lastFill ≤ now) :
    (b.refill now).Meters log := by
  have gained := elapsed_nonneg rate later
  have most := elapsed_le rate later
  rw [refill_eq]
  refine Metered.refill (supply_mono rate) meters later ?_ (min_le_left _ _) ?_
  · exact le_min meters.room (add_nonneg meters.nonneg gained)
  · exact (min_le_right _ _).trans (add_le_add_right most b.tokens)

theorem Meters.allowN (rate : 0 ≤ b.rate) (meters : b.Meters log) (later : b.lastFill ≤ now) :
    (b.allowN n now).1.Meters (if (b.allowN n now).2 then log ++ [(now, (n : ℚ))] else log) := by
  have refilled := meters.refill rate later
  by_cases enough : (n : ℚ) ≤ (b.refill now).tokens
  · rw [allowN_of_le enough]
    exact Metered.grant (supply_mono rate) refilled enough
  · rw [allowN_of_not_le enough]
    exact refilled

theorem allowNBy_fields (rounding : ℚ → ℚ) (b : TokenBucket) (n now : Int) :
    (b.allowNBy rounding n now).1.rate = b.rate ∧ (b.allowNBy rounding n now).1.burst = b.burst ∧
      (b.allowNBy rounding n now).1.lastFill = now := by
  unfold allowNBy
  dsimp only
  split_ifs <;> exact ⟨rfl, rfl, rfl⟩

@[simp] theorem allowN_rate (b : TokenBucket) (n now : Int) : (b.allowN n now).1.rate = b.rate :=
  (allowNBy_fields id b n now).1

@[simp] theorem allowN_burst (b : TokenBucket) (n now : Int) : (b.allowN n now).1.burst = b.burst :=
  (allowNBy_fields id b n now).2.1

@[simp] theorem allowN_lastFill (b : TokenBucket) (n now : Int) : (b.allowN n now).1.lastFill = now :=
  (allowNBy_fields id b n now).2.2

theorem allowN_tokens_le (nonneg : 0 ≤ n) : (b.allowN n now).1.tokens ≤ b.burst := by
  have filled : (b.refill now).tokens ≤ b.burst := min_le_left _ _
  have removed : (0 : ℚ) ≤ n := Int.cast_nonneg nonneg
  by_cases enough : (n : ℚ) ≤ (b.refill now).tokens
  · rw [allowN_of_le enough]
    show (b.refill now).tokens - n ≤ b.burst
    linarith
  · rw [allowN_of_not_le enough]
    exact filled

theorem meters_newTokenBucket {burst : Int} (nonneg : 0 ≤ rate) (room : 0 ≤ burst) (now : Int) :
    (newTokenBucket rate burst now).Meters [] :=
  metered_full (supply_mono nonneg) (Int.cast_nonneg room) now

def Timely (begin : Int) (calls : List (Int × Int)) : Prop := Ordered begin calls ∧ ∀ call ∈ calls, 0 ≤ call.2

theorem allowAll_spec (log : List (Int × ℚ)) (calls : List (Int × Int)) (rate : 0 ≤ b.rate) (meters : b.Meters log)
    (full : b.tokens ≤ b.burst) (timely : Timely b.lastFill calls) :
    (b.allowAll calls).1.rate = b.rate ∧ (b.allowAll calls).1.burst = b.burst ∧
      (b.allowAll calls).1.tokens ≤ b.burst ∧ (b.allowAll calls).1.Meters (log ++ (b.allowAll calls).2) := by
  induction calls generalizing b log with
  | nil => exact ⟨rfl, rfl, full, by simpa [allowAll] using meters⟩
  | cons call calls ih =>
    obtain ⟨now, n⟩ := call
    obtain ⟨ordered, nonneg⟩ := timely
    simp only [Ordered, List.map_cons, List.pairwise_cons, List.mem_cons, forall_eq_or_imp] at ordered nonneg
    have next := ih _ (b := (b.allowN n now).1) (by simpa using rate) (meters.allowN rate ordered.1.1)
      (by simpa using allowN_tokens_le nonneg.1)
      ⟨by simpa [Ordered] using ordered.2, nonneg.2⟩
    simp only [allowN_rate, allowN_burst] at next
    refine ⟨next.1, next.2.1, next.2.2.1, ?_⟩
    have meters' := next.2.2.2
    unfold allowAll
    cases allowed : (b.allowN n now).2 with
    | true | false => simpa [allowed] using meters'

/-- After every call the tokens are between 0 and the burst size, and what is granted between any two
instants is at most the burst size and the refill: exactly for the burst sizes that are not negative. -/
theorem allowAll_bounded_iff (rate : ℚ) (burst : Int) (positive : 0 < rate) :
    (∀ begin calls, Timely begin calls →
      (0 ≤ ((newTokenBucket rate burst begin).allowAll calls).1.tokens ∧
        ((newTokenBucket rate burst begin).allowAll calls).1.tokens ≤ burst) ∧
      ∀ t₁ t₂, t₁ ≤ t₂ →
        spent ((newTokenBucket rate burst begin).allowAll calls).2 t₁ t₂ ≤ burst + rate * seconds (t₂ - t₁)) ↔
    0 ≤ burst := by
  constructor
  · intro bounded
    have timely : Timely 0 [(0, 0)] := ⟨by simp [Ordered], by simp⟩
    have tokens := (bounded 0 [(0, 0)] timely).1
    exact Int.cast_nonneg_iff.mp (tokens.1.trans tokens.2)
  · intro room begin calls timely
    obtain ⟨rate', burst', filled, meters⟩ := allowAll_spec [] calls (b := newTokenBucket rate burst begin)
      positive.le (meters_newTokenBucket positive.le room begin) le_rfl timely
    refine ⟨⟨meters.nonneg, filled⟩, fun t₁ t₂ before => ?_⟩
    have bound := meters.bounded t₁ t₂ before
    rw [rate', burst', supply_sub] at bound
    exact bound

theorem allowAll_bounded_two :
    (0 < (1 : ℚ) ∧ Timely 0 [(0, 2), (5, 1), (2 * 10 ^ 9, 1)] ∧ (0 : Int) ≤ 2) ∧
      spent ((newTokenBucket 1 2 0).allowAll [(0, 2), (5, 1), (2 * 10 ^ 9, 1)]).2 0 (2 * 10 ^ 9) ≤
        2 + 1 * seconds (2 * 10 ^ 9 - 0) := by
  have timely : Timely 0 [(0, 2), (5, 1), (2 * 10 ^ 9, 1)] := ⟨by simp [Ordered], by simp⟩
  have positive : 0 < (1 : ℚ) := by norm_num
  have bounded := (allowAll_bounded_iff 1 2 positive).mpr (by decide)
  exact ⟨⟨positive, timely, by decide⟩, (bounded 0 _ timely).2 0 (2 * 10 ^ 9) (by norm_num)⟩

end TokenBucket

structure TokenBucketRateLimiter where
  defaultRate : ℚ
  defaultBurst : Int
  cleanupInterval : Int
  perKeyRules : Bytes → Option RateLimitRule

def minute : Int := 60 * second

def newTokenBucketRateLimiter (requestsPerSecond burstSize : Int) : TokenBucketRateLimiter where
  defaultRate := if requestsPerSecond ≤ 0 then 100 else requestsPerSecond
  defaultBurst := if burstSize ≤ 0 then 10 else burstSize
  cleanupInterval := 10 * minute
  perKeyRules := fun _ => none

namespace TokenBucketRateLimiter

variable (rl : TokenBucketRateLimiter)

def setRuleForKey (key : Bytes) (rule : RateLimitRule) : TokenBucketRateLimiter :=
  { rl with perKeyRules := Function.update rl.perKeyRules key (some rule) }

def rate (key : Bytes) : ℚ :=
  match rl.perKeyRules key with
  | some rule => rule.requestsPerSecond
  | none => rl.defaultRate

def burst (key : Bytes) : Int :=
  match rl.perKeyRules key with
  | some rule => rule.burstSize
  | none => rl.defaultBurst

def newBucketBy (rounding : ℚ → ℚ) (key : Bytes) (now : Int) : TokenBucket :=
  newTokenBucketBy rounding (rl.rate key) (rl.burst key) now

def newBucket : Bytes → Int → TokenBucket := rl.newBucketBy id

theorem not_nonneg_tokens_negative_burst :
    let rl := (newTokenBucketRateLimiter 100 10).setRuleForKey [107] ⟨1, -1, 0⟩
    TokenBucket.Timely 0 [(0, 0)] ∧ ¬ 0 ≤ ((rl.newBucket [107] 0).allowAll [(0, 0)]).1.tokens := by
  refine ⟨⟨by simp [Ordered], by simp⟩, ?_⟩
  decide +kernel

def buckets : Pool Bytes TokenBucket Unit Empty Int (Int × ℚ) where
  start n := n
  configure s _ := s
  fresh _ key now := rl.newBucket key now
  prepare _ _ _ := none
  spend b n now := some (b.allowN n now)
  record n now := [(now, (n : ℚ))]
  lastSeen b := b.lastSeen
  interval := rl.cleanupInterval

abbrev machine (begin : Int) :
    Machine (Pool.State Bytes TokenBucket Unit Int (Int × ℚ)) (Pool.Label Bytes Empty) :=
  rl.buckets.machine () begin

def Refilled (_ : Unit) (now : Int) (b : TokenBucket) : Prop :=
  b.burst ≤ b.tokens + seconds (timeSub now b.lastFill) * b.rate

instance (s : Unit) (now : Int) (b : TokenBucket) : Decidable (Refilled s now b) := by
  unfold Refilled
  infer_instance

abbrev CleansUp (key : Bytes) :
    Pool.State Bytes TokenBucket Unit Int (Int × ℚ) → Pool.Label Bytes Empty → Prop :=
  Pool.Guarded key Refilled fun _ _ => True

def upkeep (key : Bytes) (rate : 0 ≤ rl.rate key) : rl.buckets.Upkeep key Refilled fun _ _ => True where
  Live _ log now b := b.rate = rl.rate key ∧ b.burst = rl.burst key ∧ b.lastFill ≤ now ∧ b.Meters log
  -- a bucket that was removed counts as a full one
  Gone _ log now := Metered (TokenBucket.supply (rl.rate key)) (rl.burst key) log now (rl.burst key)
  Fits _ _ := True
  starts _ _ := trivial
  prepares _ _ := trivial
  makes gone := ⟨rfl, rfl, le_rfl, gone⟩
  spends := by
    rintro _ log now b n b' granted ⟨rate', burst', before, meters⟩ - spent
    obtain ⟨rfl, rfl⟩ := Prod.ext_iff.mp (Option.some.inj spent)
    have next := meters.allowN (n := n) (by rw [rate']; exact rate) before
    exact ⟨by simpa using rate', by simpa using burst', by simp, next⟩
  waits live later := ⟨live.1, live.2.1, live.2.2.1.trans later, live.2.2.2⟩
  stays gone later := by
    have supplied := TokenBucket.supply_mono rate _ _ later
    exact gone.refill (TokenBucket.supply_mono rate) later gone.room le_rfl (by linarith)
  forgets := by
    rintro _ log now b ⟨rate', burst', before, meters⟩ refilled
    have gained := TokenBucket.elapsed_le (by rw [rate']; exact rate) before
    rw [TokenBucket.Meters, rate', burst'] at meters
    rw [Refilled] at refilled
    rw [rate'] at gained refilled
    rw [burst'] at refilled
    exact meters.refill (TokenBucket.supply_mono rate) before meters.room le_rfl (by linarith)
  configuresLive _ live := live
  configuresGone _ gone := gone
  configuresFits _ _ _ := trivial

-- the tokens are exact, as in the bound on one bucket: `buckets` spends with `allowN`
theorem spent_le (key : Bytes) (rate : 0 ≤ rl.rate key) (burst : 0 ≤ rl.burst key) {begin : Int}
    {ls : List (Pool.Label Bytes Empty)} {c : Pool.State Bytes TokenBucket Unit Int (Int × ℚ)}
    (each : (rl.machine begin).EachStep (CleansUp key) (rl.machine begin).start ls)
    (run : (rl.machine begin).run (rl.machine begin).start ls = some c) {t₁ t₂ : Int} (before : t₁ ≤ t₂) :
    spent (c.log key) t₁ t₂ ≤ rl.burst key + rl.rate key * seconds (t₂ - t₁) := by
  have initial := metered_full (TokenBucket.supply_mono rate) (Int.cast_nonneg burst) begin
  have bounded := (rl.upkeep key rate).log_invariant
    (P := fun _ log => ∀ t₁ t₂, t₁ ≤ t₂ → spent log t₁ t₂ ≤
      rl.burst key + (TokenBucket.supply (rl.rate key) t₂ - TokenBucket.supply (rl.rate key) t₁))
    (fun live => by
      have bound := live.2.2.2.bounded
      rwa [live.1, live.2.1] at bound)
    (fun gone => gone.bounded) initial each run
  have bound := bounded t₁ t₂ before
  rwa [TokenBucket.supply_sub] at bound

theorem spent_le_refilled :
    ∃ (ls : List (Pool.Label Bytes Empty)) (c : Pool.State Bytes TokenBucket Unit Int (Int × ℚ)),
      let rl := (newTokenBucketRateLimiter 100 10).setRuleForKey [107] ⟨1, 2, 0⟩
      (rl.machine 0).EachStep (CleansUp [107]) (rl.machine 0).start ls ∧
      (rl.machine 0).run (rl.machine 0).start ls = some c ∧
      c.log [107] = [(0, 2), (20 * minute, 2)] ∧
      spent (c.log [107]) 0 (20 * minute) ≤ rl.burst [107] + rl.rate [107] * seconds (20 * minute - 0) := by
  let rl := (newTokenBucketRateLimiter 100 10).setRuleForKey [107] ⟨1, 2, 0⟩
  let ls : List (Pool.Label Bytes Empty) := [.call [107] 2, .fetch 0, .spend 0,
    .wait (20 * minute).toNat, .wake, .visit [107], .look, .remove, .rest, .call [107] 2, .fetch 1, .spend 1]
  have facts : ((rl.machine 0).run (rl.machine 0).start ls).map (fun c => c.log [107]) =
      some [(0, 2), (20 * minute, 2)] := by decide +kernel
  obtain ⟨c, run, log⟩ := Option.map_eq_some_iff.mp facts
  have each : (rl.machine 0).EachStep (CleansUp [107]) (rl.machine 0).start ls :=
    Machine.eachStep_of_checks (by decide +kernel)
  exact ⟨ls, c, each, run, log,
    rl.spent_le [107] (by decide +kernel) (by decide +kernel) each run (by decide +kernel)⟩

theorem not_spent_le_slow_refill :
    ∃ (ls : List (Pool.Label Bytes Empty)) (c : Pool.State Bytes TokenBucket Unit Int (Int × ℚ)),
      let rl := (newTokenBucketRateLimiter 100 10).setRuleForKey [107] ⟨1, 2000, 0⟩
      (rl.machine 0).run (rl.machine 0).start ls = some c ∧
      ¬ spent (c.log [107]) 0 (20 * minute) ≤ rl.burst [107] + rl.rate [107] * seconds (20 * minute - 0) := by
  let rl := (newTokenBucketRateLimiter 100 10).setRuleForKey [107] ⟨1, 2000, 0⟩
  let ls : List (Pool.Label Bytes Empty) := [.call [107] 2000, .fetch 0, .spend 0,
    .wait (20 * minute).toNat, .wake, .visit [107], .look, .remove, .rest, .call [107] 2000, .fetch 1, .spend 1]
  have facts : ((rl.machine 0).run (rl.machine 0).start ls).map (fun c => spent (c.log [107]) 0 (20 * minute)) =
      some 4000 := by decide +kernel
  obtain ⟨c, run, total⟩ := Option.map_eq_some_iff.mp facts
  refine ⟨ls, c, run, ?_⟩
  rw [total]
  decide +kernel

end TokenBucketRateLimiter

end Mcp.RateLimit
