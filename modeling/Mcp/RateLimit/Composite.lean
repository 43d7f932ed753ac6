import Mcp.Lib.Fraction
import Mcp.Lib.Keyed
import Mcp.RateLimit.Waiting

namespace Mcp.RateLimit
open Mcp.Lib Mcp.Auth Function

def TokenBucketRateLimiter.keyedBy (rounding : ℚ → ℚ) (rl : TokenBucketRateLimiter) : Keyed Bytes TokenBucket where
  fresh := rl.newBucketBy rounding
  ask _ b n now := some (b.allowNBy rounding n now)

-- as on amd64, where a product is rounded before it is added
abbrev TokenBucketRateLimiter.keyed : TokenBucketRateLimiter → Keyed Bytes TokenBucket := keyedBy Float64.round

abbrev TokenBucketRateLimiter.exact : TokenBucketRateLimiter → Keyed Bytes TokenBucket := keyedBy id

-- `timesSeconds r d` is `int(float64(r) * d.Seconds())`, however the machine rounds it.
variable (timesSeconds : Int → Int → Int)

def SlidingWindowRateLimiter.keyed (rl : SlidingWindowRateLimiter) : Keyed Bytes SlidingWindow where
  fresh _ now := newSlidingWindow now
  ask key w n now := w.allowN n (rl.getWindowSize key) (rl.getMaxRequests timesSeconds key) now

inductive Limiter where
  | tokenBucket (rl : TokenBucketRateLimiter) (limiters : Bytes → Option TokenBucket)
  | slidingWindow (rl : SlidingWindowRateLimiter) (windows : Bytes → Option SlidingWindow)

def Limiter.allowN : Limiter → Bytes → Int → Int → Option (Limiter × Bool)
  | .tokenBucket rl limiters, key, n, now =>
    (rl.keyed.allow limiters key n now).map fun (limiters, allowed) => (.tokenBucket rl limiters, allowed)
  | .slidingWindow rl windows, key, n, now =>
    ((rl.keyed timesSeconds).allow windows key n now).map fun (windows, allowed) => (.slidingWindow rl windows, allowed)

def Limiter.decisions : Limiter → List (Bytes × Int × Int) → List (Option Bool)
  | .tokenBucket rl limiters => rl.keyed.decisions limiters
  | .slidingWindow rl windows => (rl.keyed timesSeconds).decisions windows

inductive Strategy where
  | all
  | any

structure CompositeRateLimiter where
  limiters : List Limiter
  strategy : Strategy

def newCompositeRateLimiter (strategy : String) (limiters : List Limiter) : CompositeRateLimiter where
  limiters := limiters
  strategy := if strategy = "any" then .any else .all

structure CompositeCall where
  key : Bytes
  n : Int
  clock : Nat → Int

def CompositeCall.tail (call : CompositeCall) : CompositeCall := { call with clock := fun i => call.clock (i + 1) }

def allowUntil (stop : Bool) : CompositeCall → List Limiter → Option (List Limiter × Bool)
  | _, [] => some ([], !stop)
  | call, limiter :: rest =>
    (limiter.allowN timesSeconds call.key call.n (call.clock 0)).bind fun (limiter, allowed) =>
      if allowed = stop then some (limiter :: rest, stop)
      else (allowUntil stop call.tail rest).map fun (rest, allowed) => (limiter :: rest, allowed)

def CompositeRateLimiter.allowN (c : CompositeRateLimiter) (call : CompositeCall) :
    Option (CompositeRateLimiter × Bool) :=
  (match c.strategy with
    | .all => allowUntil timesSeconds false call c.limiters
    | .any => allowUntil timesSeconds true call c.limiters).map
      fun (limiters, allowed) => ({ c with limiters := limiters }, allowed)

/-- The two members decide alike on any requests from the time on, at the given instants. -/
def Limiter.Alike (instants : Int → Prop) (begin : Int) (l l' : Limiter) : Prop :=
  ∀ later, Keyed.Timed (fun u => u ≤ maxInt ∧ instants u) begin later →
    l'.decisions timesSeconds later = l.decisions timesSeconds later

def Limiter.Decides (l : Limiter) (key : Bytes) (n now : Int) (allowed : Bool) : Prop :=
  (l.allowN timesSeconds key n now).map Prod.snd = some allowed

instance (l : Limiter) (key : Bytes) (n now : Int) (allowed : Bool) :
    Decidable (l.Decides timesSeconds key n now allowed) :=
  inferInstanceAs (Decidable (_ = _))

def Limiter.Gratis : Limiter → Bytes → Int → Int → Prop
  | .tokenBucket rl limiters, key, n, now =>
    let b := rl.exact.fetch key now (limiters key)
    n = 0 ∨ n < 0 ∧ (b.refill now).tokens = b.burst
  | .slidingWindow _ _, _, n, _ => n ≤ 0

/-- Rounding changes nothing: neither when the bucket is asked, nor when it is refilled at one of the later
instants, be it with or without having been asked. -/
def Limiter.Exact (instants : Int → Prop) : Limiter → Bytes → Int → Int → Prop
  | .tokenBucket rl limiters, key, n, now =>
    let asked := (rl.exact.fetch key now (limiters key)).allowN n now
    (rl.keyed.fetch key now (limiters key)).allowNBy Float64.round n now = asked ∧
      ∀ u, now ≤ u → u ≤ maxInt → instants u →
        (rl.keyed.fetch key u (limiters key)).refillBy Float64.round u =
          (rl.exact.fetch key u (limiters key)).refill u ∧
          asked.1.refillBy Float64.round u = asked.1.refill u
  | .slidingWindow _ _, _, _, _ => True

/-- No rate is negative, and no bucket was filled in the future. -/
def Limiter.Settled (now : Int) : Limiter → Prop
  | .tokenBucket rl limiters => (∀ key, 0 ≤ rl.rate key) ∧
      ∀ key b, limiters key = some b → 0 ≤ b.rate ∧ 0 ≤ b.lastFill ∧ b.lastFill ≤ now
  | .slidingWindow _ _ => True

namespace TokenBucket

variable {b : TokenBucket} {n t u : Int}

theorem timeSub_add {s : Int} (start : 0 ≤ s) (order : s ≤ t) (order' : t ≤ u) (within : u ≤ maxInt) :
    timeSub u s = timeSub t s + timeSub u t := by
  unfold timeSub minInt maxInt at *
  omega

theorem refill_refill (rate : 0 ≤ b.rate) (start : 0 ≤ b.lastFill) (order : b.lastFill ≤ t) (order' : t ≤ u)
    (within : u ≤ maxInt) : (b.refill t).refill u = b.refill u := by
  have more : 0 ≤ seconds (timeSub u t) * b.rate := elapsed_nonneg (b := { b with lastFill := t }) rate order'
  have total : seconds (timeSub u b.lastFill) = seconds (timeSub t b.lastFill) + seconds (timeSub u t) := by
    rw [timeSub_add start order order' within, seconds, seconds, seconds]
    push_cast
    ring
  have tokens : min (b.burst : ℚ) (min (b.burst : ℚ) (b.tokens + seconds (timeSub t b.lastFill) * b.rate) +
      seconds (timeSub u t) * b.rate) = min (b.burst : ℚ) (b.tokens + seconds (timeSub u b.lastFill) * b.rate) := by
    rw [total, add_mul, ← add_assoc, ← min_add_add_right, ← min_assoc, min_eq_left (a := (b.burst : ℚ)) (by linarith)]
  simp only [refill_eq, tokens]

theorem refill_newTokenBucket {rate : ℚ} {burst : Int} (nonneg : 0 ≤ rate) (order : t ≤ u) :
    (newTokenBucket rate burst t).refill u = newTokenBucket rate burst u := by
  have more := elapsed_nonneg (b := newTokenBucket rate burst t) nonneg order
  have tokens : min (burst : ℚ) ((burst : ℚ) + seconds (timeSub u t) * rate) = burst :=
    min_eq_left (le_add_of_nonneg_right more)
  simp only [refill_eq, newTokenBucket, newTokenBucketBy, id, tokens]

theorem allowNBy_congr {rounding : ℚ → ℚ} {b' : TokenBucket} (same : b.refillBy rounding u = b'.refillBy rounding u) :
    b.allowNBy rounding n u = b'.allowNBy rounding n u := by
  simp only [allowNBy, same]

theorem refill_full (rate : 0 ≤ b.rate) (order : t ≤ u) (full : (b.refill t).tokens = b.burst) (added : n ≤ 0) :
    { b.refill t with tokens := (b.refill t).tokens - n }.refill u = (b.refill t).refill u := by
  have more : 0 ≤ seconds (timeSub u t) * b.rate := elapsed_nonneg (b := { b with lastFill := t }) rate order
  have negative : (n : ℚ) ≤ 0 := by exact_mod_cast added
  have left : min (b.burst : ℚ) ((b.refill t).tokens - n + seconds (timeSub u t) * b.rate) = b.burst :=
    min_eq_left (by rw [full]; linarith)
  have right : min (b.burst : ℚ) ((b.refill t).tokens + seconds (timeSub u t) * b.rate) = b.burst :=
    min_eq_left (by rw [full]; linarith)
  simp only [refill_eq] at left right ⊢
  rw [left, right]

end TokenBucket

namespace TokenBucketRateLimiter

variable {rl : TokenBucketRateLimiter} {limiters : Bytes → Option TokenBucket} {key : Bytes} {n t u : Int}

theorem round_nonneg {q : ℚ} (nonneg : 0 ≤ q) : 0 ≤ Float64.round q := by
  have sign : 0 ≤ q.num.sign := Int.sign_nonneg_iff.mpr (Rat.num_nonneg.mpr nonneg)
  unfold Float64.round
  positivity

theorem settled_keyedBy {rounding : ℚ → ℚ} (keeps : ∀ q, 0 ≤ q → 0 ≤ rounding q)
    (settled : (Limiter.tokenBucket rl limiters).Settled t) (start : 0 ≤ t) (key : Bytes) :
    let b := (rl.keyedBy rounding).fetch key t (limiters key)
    0 ≤ b.rate ∧ 0 ≤ b.lastFill ∧ b.lastFill ≤ t := by
  cases found : limiters key with
  | none => exact ⟨keeps _ (settled.1 key), start, Int.le_refl t⟩
  | some b => exact settled.2 key b found

theorem refill_fetch (settled : (Limiter.tokenBucket rl limiters).Settled t) (start : 0 ≤ t) (order : t ≤ u)
    (within : u ≤ maxInt) :
    ((rl.exact.fetch key t (limiters key)).refill t).refill u = (rl.exact.fetch key u (limiters key)).refill u := by
  obtain ⟨rate, filled, past⟩ := @settled_keyedBy rl limiters t id (fun _ => id) settled start key
  rw [TokenBucket.refill_refill rate filled past order within]
  cases limiters key with
  | none =>
    show (newTokenBucket _ _ t).refill u = (newTokenBucket _ _ u).refill u
    rw [TokenBucket.refill_newTokenBucket (settled.1 key) order,
      TokenBucket.refill_newTokenBucket (settled.1 key) (Int.le_refl u)]
  | some b => rfl

-- with exact tokens, a bucket that was asked for nothing or rejects fills up as if it had not been asked
theorem refill_asked (settled : (Limiter.tokenBucket rl limiters).Settled t) (start : 0 ≤ t)
    (free : ((rl.exact.fetch key t (limiters key)).allowN n t).2 = true →
      (Limiter.tokenBucket rl limiters).Gratis key n t)
    (order : t ≤ u) (within : u ≤ maxInt) :
    ((rl.exact.fetch key t (limiters key)).allowN n t).1.refill u = (rl.exact.fetch key u (limiters key)).refill u := by
  obtain ⟨rate, -, -⟩ := @settled_keyedBy rl limiters t id (fun _ => id) settled start key
  rw [← refill_fetch settled start order within]
  by_cases enough : (n : ℚ) ≤ ((rl.exact.fetch key t (limiters key)).refill t).tokens
  · rw [TokenBucket.allowN_of_le enough] at free ⊢
    rcases free rfl with rfl | ⟨negative, full⟩
    · simp
    · exact TokenBucket.refill_full rate order full negative.le
  · rw [TokenBucket.allowN_of_not_le enough]

theorem alike (settled : (Limiter.tokenBucket rl limiters).Settled t) (start : 0 ≤ t) {instants : Int → Prop}
    (exact : (Limiter.tokenBucket rl limiters).Exact instants key n t)
    (free : ((rl.keyed.fetch key t (limiters key)).allowNBy Float64.round n t).2 = true →
      (Limiter.tokenBucket rl limiters).Gratis key n t) :
    Limiter.Alike timesSeconds instants t (.tokenBucket rl limiters) (.tokenBucket rl (update limiters key
      (some ((rl.keyed.fetch key t (limiters key)).allowNBy Float64.round n t).1))) := by
  obtain ⟨asked, refills⟩ := exact
  rw [asked] at free ⊢
  intro later timed
  refine Keyed.decisions_update (m := rl.keyed) (fun n u order within => ?_) timed
  obtain ⟨without, having⟩ := refills u order within.1 within.2
  have same := having.trans ((refill_asked settled start free order within.1).trans without.symm)
  exact congrArg some (TokenBucket.allowNBy_congr same)

end TokenBucketRateLimiter

namespace SlidingWindow

variable {w w' : SlidingWindow} {n size most t u : Int} {allowed : Bool}

theorem prune_prune (order : t ≤ u) : (w.prune size t).prune size u = w.prune size u := by
  have kept : ∀ reqTime ∈ w.requests, (decide (u - size < reqTime) && decide (t - size < reqTime)) =
      decide (u - size < reqTime) := by
    intro reqTime _
    rw [← Bool.decide_and]
    exact decide_eq_decide.mpr (by omega)
  simp only [prune, List.filter_filter, List.filter_congr kept]

theorem allowN_congr (same : w.prune size u = w'.prune size u) : w.allowN n size most u = w'.allowN n size most u := by
  simp only [allowN, same]

theorem allowN_true (asked : w.allowN n size most t = some (w', true)) :
    w' = { w.prune size t with requests := (w.prune size t).requests ++ List.replicate n.toNat t } ∧
      wrap ((w.prune size t).requests.length + n) ≤ most ∧ (w.prune size t).requests.length + n ≤ maxInt := by
  unfold allowN at asked
  dsimp only at asked
  split_ifs at asked with enough room
  · obtain ⟨⟩ := asked
    exact ⟨rfl, enough, room⟩
  · simp at asked

end SlidingWindow

namespace SlidingWindowRateLimiter

variable {rl : SlidingWindowRateLimiter} {windows : Bytes → Option SlidingWindow} {key : Bytes} {n t : Int}

variable {w : SlidingWindow}

theorem alike_of_prune (instants : Int → Prop)
    (same : w = ((rl.keyed timesSeconds).fetch key t (windows key)).prune (rl.getWindowSize key) t) :
    Limiter.Alike timesSeconds instants t (.slidingWindow rl windows)
      (.slidingWindow rl (update windows key (some w))) := by
  intro later timed
  refine Keyed.decisions_update (m := rl.keyed timesSeconds) (fun n u order within => ?_) timed
  refine SlidingWindow.allowN_congr ?_
  rw [same]
  cases windows key with
  | none => rfl
  | some stored => exact SlidingWindow.prune_prune order

theorem alike (instants : Int → Prop) {allowed : Bool}
    (asked : (rl.keyed timesSeconds).ask key ((rl.keyed timesSeconds).fetch key t (windows key)) n t =
      some (w, allowed))
    (free : allowed = true → n ≤ 0) :
    Limiter.Alike timesSeconds instants t (.slidingWindow rl windows)
      (.slidingWindow rl (update windows key (some w))) := by
  apply alike_of_prune
  rcases SlidingWindow.allowN_cases asked with ⟨rfl, -, -⟩ | ⟨-, same⟩
  · rw [(SlidingWindow.allowN_true asked).1, Int.toNat_of_nonpos (free rfl), List.replicate_zero, List.append_nil]
  · exact same

end SlidingWindowRateLimiter

namespace Limiter

variable {timesSeconds} {l l' : Limiter} {key : Bytes} {n t : Int} {allowed : Bool}

theorem alike (settled : l.Settled t) (start : 0 ≤ t) {instants : Int → Prop} (exact : l.Exact instants key n t)
    (asked : l.allowN timesSeconds key n t = some (l', allowed)) (free : allowed = true → l.Gratis key n t) :
    Alike timesSeconds instants t l l' := by
  cases l with
  | tokenBucket rl limiters =>
    obtain ⟨rfl, rfl⟩ : _ ∧ _ := by simpa [allowN, Keyed.allow, TokenBucketRateLimiter.keyedBy] using asked
    exact TokenBucketRateLimiter.alike timesSeconds settled start exact free
  | slidingWindow rl windows =>
    obtain ⟨⟨stored, allowed⟩, moved, ⟨⟩⟩ := Option.map_eq_some_iff.mp asked
    obtain ⟨⟨w, allowed⟩, asked, ⟨⟩⟩ := Option.map_eq_some_iff.mp moved
    exact SlidingWindowRateLimiter.alike timesSeconds instants asked free

theorem Settled.mono {now : Int} (settled : l.Settled t) (order : t ≤ now) : l.Settled now := by
  cases l with
  | tokenBucket rl limiters =>
    refine ⟨settled.1, fun key b found => ?_⟩
    obtain ⟨rate, filled, past⟩ := settled.2 key b found
    exact ⟨rate, filled, past.trans order⟩
  | slidingWindow rl windows => exact settled

theorem Settled.allowN (settled : l.Settled t) (start : 0 ≤ t)
    (asked : l.allowN timesSeconds key n t = some (l', allowed)) : l'.Settled t := by
  cases l with
  | tokenBucket rl limiters =>
    obtain ⟨rfl, rfl⟩ : _ ∧ _ := by simpa [Limiter.allowN, Keyed.allow, TokenBucketRateLimiter.keyedBy] using asked
    refine ⟨settled.1, fun other b found => ?_⟩
    by_cases same : other = key
    · subst same
      rw [update_self] at found
      obtain rfl := Option.some.inj found
      obtain ⟨rate, -, -⟩ :=
        TokenBucketRateLimiter.settled_keyedBy (fun _ => TokenBucketRateLimiter.round_nonneg) settled start other
      obtain ⟨same, -, filled⟩ :=
        TokenBucket.allowNBy_fields Float64.round (rl.keyed.fetch other t (limiters other)) n t
      exact ⟨same.symm ▸ rate, filled.symm ▸ start, filled.le⟩
    · rw [update_of_ne same] at found
      exact settled.2 other b found
  | slidingWindow rl windows =>
    obtain ⟨⟨stored, allowed⟩, -, ⟨⟩⟩ := Option.map_eq_some_iff.mp asked
    exact settled

end Limiter

structure RejectedAt (call : CompositeCall) (limiters : List Limiter) (k : Nat) : Prop where
  before : ∀ j < k, ∀ l, limiters[j]? = some l → l.Decides timesSeconds call.key call.n (call.clock j) true
  first : ∃ l, limiters[k]? = some l ∧ l.Decides timesSeconds call.key call.n (call.clock k) false

/-- If a member rejects the call, the ones before it are asked for nothing, and rounding changes nothing in those
that are asked. -/
def ChargesNobody (instants : Int → Prop) (call : CompositeCall) (limiters : List Limiter) : Prop :=
  ∀ k, RejectedAt timesSeconds call limiters k → ∀ j ≤ k, ∀ l, limiters[j]? = some l →
    (j < k → l.Gratis call.key call.n (call.clock j)) ∧ l.Exact instants call.key call.n (call.clock j)

section
variable {timesSeconds} {call : CompositeCall} {l l' : Limiter} {rest : List Limiter}

variable {now : Int} {allowed : Bool} {limiters' limiters : List Limiter}

theorem Limiter.decides_of {key : Bytes} {n : Int} (asked : l.allowN timesSeconds key n now = some (l', allowed)) :
    l.Decides timesSeconds key n now allowed := by
  simp [Limiter.Decides, asked]

-- by induction on the members: they are asked up to the one that rejects, and the others stay as they are
theorem exists_rejectedAt (result : allowUntil timesSeconds false call limiters = some (limiters', false)) :
    ∃ k, RejectedAt timesSeconds call limiters k ∧
      ∀ (i : Nat) l l', limiters[i]? = some l → limiters'[i]? = some l' →
        i ≤ k ∧ l.allowN timesSeconds call.key call.n (call.clock i) = some (l', decide (i < k)) ∨ l' = l := by
  induction limiters generalizing call limiters' with
  | nil => simp [allowUntil] at result
  | cons l rest ih =>
    obtain ⟨⟨next, allowed⟩, asked, moved⟩ := Option.bind_eq_some_iff.mp result
    cases allowed with
    | false =>
      obtain ⟨⟩ : some (next :: rest, false) = some (limiters', false) := moved
      refine ⟨0, ⟨nofun, l, rfl, Limiter.decides_of asked⟩, fun i other other' found found' => ?_⟩
      cases i with
      | zero =>
        obtain ⟨⟩ := found
        obtain ⟨⟩ := found'
        exact .inl ⟨Nat.le_refl 0, asked⟩
      | succ i => exact .inr (Option.some.inj (found'.symm.trans found))
    | true =>
      obtain ⟨⟨rest', allowed⟩, continued, ⟨⟩⟩ := Option.map_eq_some_iff.mp moved
      obtain ⟨k, rejected, members⟩ := ih continued
      refine ⟨k + 1, ⟨fun j less other found => ?_, rejected.first⟩, fun i other other' found found' => ?_⟩
      · cases j with
        | zero =>
          obtain ⟨⟩ := found
          exact Limiter.decides_of asked
        | succ j => exact rejected.before j (Nat.lt_of_succ_lt_succ less) other found
      · cases i with
        | zero =>
          obtain ⟨⟩ := found
          obtain ⟨⟩ := found'
          exact .inl ⟨Nat.zero_le _, by simpa using asked⟩
        | succ i =>
          refine (members i other other' found found').imp_left fun ⟨before, asked⟩ => ⟨Nat.succ_le_succ before, ?_⟩
          rw [decide_eq_decide.mpr Nat.succ_lt_succ_iff]
          exact asked

theorem rejected_alike {instants : Int → Prop} (charges : ChargesNobody timesSeconds instants call limiters)
    (settled : ∀ (i : Nat) l, limiters[i]? = some l → l.Settled (call.clock i) ∧ 0 ≤ call.clock i)
    (result : allowUntil timesSeconds false call limiters = some (limiters', false)) (i : Nat)
    (found : limiters[i]? = some l) (found' : limiters'[i]? = some l') :
    Limiter.Alike timesSeconds instants (call.clock i) l l' := by
  obtain ⟨k, rejected, members⟩ := exists_rejectedAt result
  rcases members i l l' found found' with ⟨before, asked⟩ | rfl
  · obtain ⟨free, exact⟩ := charges k rejected i before l found
    obtain ⟨first, start⟩ := settled i l found
    exact Limiter.alike first start exact asked fun admitted => free (of_decide_eq_true admitted)
  · exact fun _ _ => rfl

theorem settled_allowUntil {stop : Bool} {finish : Int} (start : 0 ≤ now)
    (order : now ≤ finish) (clock : ∀ i < limiters.length, now ≤ call.clock i ∧ call.clock i ≤ finish)
    (settled : ∀ l ∈ limiters, l.Settled now)
    (result : allowUntil timesSeconds stop call limiters = some (limiters', allowed)) :
    ∀ l ∈ limiters', l.Settled finish := by
  induction limiters generalizing call limiters' with
  | nil =>
    obtain ⟨⟩ := result
    nofun
  | cons l rest ih =>
    obtain ⟨own, others⟩ := List.forall_mem_cons.mp settled
    obtain ⟨after, before⟩ := clock 0 (Nat.succ_pos _)
    obtain ⟨⟨l', allowed⟩, asked, moved⟩ := Option.bind_eq_some_iff.mp result
    have settled' : l'.Settled finish := ((own.mono after).allowN (start.trans after) asked).mono before
    dsimp only at moved
    split_ifs at moved
    · obtain ⟨⟩ := moved
      exact List.forall_mem_cons.mpr ⟨settled', fun other member => (others other member).mono order⟩
    · obtain ⟨⟨rest', allowed⟩, continued, ⟨⟩⟩ := Option.map_eq_some_iff.mp moved
      exact List.forall_mem_cons.mpr
        ⟨settled', ih (fun i less => clock (i + 1) (Nat.succ_lt_succ less)) others continued⟩

end

structure CompositeState where
  limiter : CompositeRateLimiter
  now : Int

abbrev CompositeAction := CompositeCall × Int

def InTime (s : CompositeState) (a : CompositeAction) : Prop :=
  s.now ≤ a.2 ∧ a.2 ≤ maxInt ∧ ∀ i < s.limiter.limiters.length, s.now ≤ a.1.clock i ∧ a.1.clock i ≤ a.2

instance (s : CompositeState) (a : CompositeAction) : Decidable (InTime s a) := by
  unfold InTime
  infer_instance

def compositing (limiters : List Limiter) (begin : Int) : Machine CompositeState CompositeAction where
  start := ⟨newCompositeRateLimiter "all" limiters, begin⟩
  step s a :=
    if InTime s a then (s.limiter.allowN timesSeconds a.1).map fun (limiter, _) => ⟨limiter, a.2⟩ else none

/-- If the call is rejected, then every member decides what comes later as if it had not been made. -/
def RejectionCostsNothing (instants : Int → Prop) (s : CompositeState) (a : CompositeAction) : Prop :=
  InTime s a → ∀ c, s.limiter.allowN timesSeconds a.1 = some (c, false) →
    ∀ (i : Nat) l l', s.limiter.limiters[i]? = some l → c.limiters[i]? = some l' →
      Limiter.Alike timesSeconds instants (a.1.clock i) l l'

def RejectionChargesNobody (instants : Int → Prop) (s : CompositeState) (a : CompositeAction) : Prop :=
  InTime s a → ChargesNobody timesSeconds instants a.1 s.limiter.limiters

structure Running (s : CompositeState) : Prop where
  strategy : s.limiter.strategy = .all
  start : 0 ≤ s.now
  settled : ∀ l ∈ s.limiter.limiters, l.Settled s.now

section
variable {timesSeconds} {s s' : CompositeState} {a : CompositeAction}

theorem allowN_all (strategy : s.limiter.strategy = .all) :
    s.limiter.allowN timesSeconds a.1 = (allowUntil timesSeconds false a.1 s.limiter.limiters).map
      fun (limiters, allowed) => ({ s.limiter with limiters := limiters }, allowed) := by
  simp only [CompositeRateLimiter.allowN, strategy]

theorem Running.step {limiters : List Limiter} {begin : Int} (running : Running s)
    (step : (compositing timesSeconds limiters begin).step s a = some s') : Running s' := by
  obtain ⟨⟨order, -, clock⟩, moved⟩ := Option.ite_none_right_eq_some.mp step
  rw [allowN_all running.strategy, Option.map_map, Option.map_eq_some_iff] at moved
  obtain ⟨⟨limiters', allowed⟩, result, ⟨⟩⟩ := moved
  exact ⟨running.strategy, running.start.trans order,
    settled_allowUntil running.start order clock running.settled result⟩

theorem Running.rejection (running : Running s) {instants : Int → Prop}
    (charges : RejectionChargesNobody timesSeconds instants s a) : RejectionCostsNothing timesSeconds instants s a := by
  intro timely c rejected i l l' found found'
  rw [allowN_all running.strategy] at rejected
  obtain ⟨⟨limiters', allowed⟩, result, ⟨⟩⟩ := Option.map_eq_some_iff.mp rejected
  refine rejected_alike (charges timely) (fun i l found => ?_) result i found found'
  obtain ⟨after, -⟩ := timely.2.2 i (List.getElem?_eq_some_iff.mp found).1
  exact ⟨(running.settled l (List.mem_of_getElem? found)).mono after, running.start.trans after⟩

end

open SlidingWindowRateLimiter (exactProduct)

-- not so where the refills are rounded: 100 tokens a second, filled after 1 µs and after 10 ms
example :
    let b : TokenBucket := ⟨0, 0, 100, 1, 0⟩
    (b.allowNBy Float64.round 1 1000).2 = false ∧ (b.allowNBy Float64.round 1 (10 ^ 7)).2 = true ∧
      ((b.refillBy Float64.round 1000).allowNBy Float64.round 1 (10 ^ 7)).2 = false := by decide +kernel

end Mcp.RateLimit
