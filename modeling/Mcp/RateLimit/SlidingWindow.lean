import Mcp.RateLimit.TokenBucket

namespace Mcp.RateLimit
open Mcp.Lib Mcp.Auth

structure SlidingWindow where
  requests : List Int
  lastSeen : Int

def newSlidingWindow (now : Int) : SlidingWindow := { requests := [], lastSeen := now }

namespace SlidingWindow

def prune (w : SlidingWindow) (windowSize now : Int) : SlidingWindow :=
  { requests := w.requests.filter (now - windowSize < ·), lastSeen := now }

def allowN (w : SlidingWindow) (n windowSize maxRequests now : Int) : Option (SlidingWindow × Bool) :=
  let pruned := w.prune windowSize now
  if wrap (pruned.requests.length + n) ≤ maxRequests then
    -- a sum that has overflowed passes the test, and then the slice cannot be made
    if pruned.requests.length + n ≤ maxInt then
      some ({ pruned with requests := pruned.requests ++ List.replicate n.toNat now }, true)
    else none
  else some (pruned, false)

def allowAll (windowSize maxRequests : Int) (w : SlidingWindow) : List (Int × Int) → List Int
  | [] => []
  | (now, n) :: calls =>
    match w.allowN n windowSize maxRequests now with
    | some (next, allowed) =>
      (if allowed then List.replicate n.toNat now else []) ++ allowAll windowSize maxRequests next calls
    | none => []

variable {w w' : SlidingWindow} {n windowSize maxRequests now : Int} {allowed : Bool}

theorem length_prune_le (w : SlidingWindow) (windowSize now : Int) :
    (w.prune windowSize now).requests.length ≤ w.requests.length :=
  List.length_filter_le _ _

theorem allowN_cases (result : w.allowN n windowSize maxRequests now = some (w', allowed)) :
    allowed = true ∧ w'.requests = (w.prune windowSize now).requests ++ List.replicate n.toNat now ∧
        (0 < n → (w.prune windowSize now).requests.length + n.toNat ≤ maxRequests.toNat) ∨
      allowed = false ∧ w' = w.prune windowSize now := by
  unfold allowN at result
  dsimp only at result
  split_ifs at result with enough room
  · cases result
    refine .inl ⟨rfl, rfl, fun positive => ?_⟩
    rw [wrap_of_fits (by unfold minInt; omega) room] at enough
    omega
  · cases result
    exact .inr ⟨rfl, rfl⟩

variable {size : Int} {most : ℕ} {log : List Int}

theorem allowN_windowed (windowed : Windowed size most log w.requests now) (positive : 0 < size)
    (longer : size ≤ windowSize) (fewer : maxRequests.toNat ≤ most)
    (result : w.allowN n windowSize maxRequests now = some (w', allowed)) :
    Windowed size most (if allowed then log ++ List.replicate n.toNat now else log) w'.requests now := by
  have pruned : Windowed size most log (w.prune windowSize now).requests now := windowed.prune longer
  rcases allowN_cases result with ⟨rfl, requests, enough⟩ | ⟨rfl, rfl⟩
  · rw [requests, if_pos rfl]
    rcases le_or_gt n 0 with none | some
    · simpa [Int.toNat_of_nonpos none] using pruned
    · exact pruned.add positive ((enough some).trans fewer)
  · exact pruned

theorem allowAll_windowed (log : List Int) (w : SlidingWindow) (positive : 0 < size)
    (calls : List (Int × Int)) (begin : Int) (ordered : Ordered begin calls)
    (windowed : Windowed size maxRequests.toNat log w.requests begin) :
    ∃ stored last, Windowed size maxRequests.toNat (log ++ allowAll size maxRequests w calls) stored last := by
  induction calls generalizing w log begin with
  | nil => exact ⟨_, _, by simpa [allowAll] using windowed⟩
  | cons call calls ih =>
    obtain ⟨now, n⟩ := call
    simp only [Ordered, List.map_cons, List.pairwise_cons, List.mem_cons, forall_eq_or_imp] at ordered
    have present := windowed.later ordered.1.1
    rw [allowAll]
    cases result : w.allowN n size maxRequests now with
    | none => exact ⟨_, _, by simpa using present⟩
    | some next =>
      obtain ⟨next, granted⟩ := next
      have after := allowN_windowed present positive le_rfl le_rfl result
      obtain ⟨stored, last, rest⟩ := ih _ next now (by simpa [Ordered] using ordered.2) after
      refine ⟨stored, last, ?_⟩
      cases granted with
      | true | false => simpa using rest

theorem allowAll_countP_le (windowSize maxRequests : Int) (positive : 0 < windowSize) (begin : Int)
    (calls : List (Int × Int)) (ordered : Ordered begin calls) (a : Int) :
    ((allowAll windowSize maxRequests (newSlidingWindow begin) calls).countP
        fun t => a ≤ t ∧ t < a + windowSize) ≤ maxRequests.toNat ∧
      ((allowAll windowSize maxRequests (newSlidingWindow begin) calls).countP
        fun t => a < t ∧ t ≤ a + windowSize) ≤ maxRequests.toNat := by
  obtain ⟨stored, last, windowed⟩ := allowAll_windowed [] (newSlidingWindow begin) positive calls begin ordered
    (windowed_nil windowSize maxRequests.toNat begin)
  exact ⟨windowed.few _ (together_Ico a windowSize), windowed.few _ (together_Ioc a windowSize)⟩

theorem allowAll_countP_le_three :
    (0 < (10 : Int) ∧ Ordered 0 [(0, 2), (3, 1), (3, 1), (10, 2), (12, 1)]) ∧
      allowAll 10 3 (newSlidingWindow 0) [(0, 2), (3, 1), (3, 1), (10, 2), (12, 1)] = [0, 0, 3, 10, 10] ∧
      ((allowAll 10 3 (newSlidingWindow 0) [(0, 2), (3, 1), (3, 1), (10, 2), (12, 1)]).countP
        fun t => 1 ≤ t ∧ t < 1 + 10) ≤ (3 : Int).toNat := by
  have ordered : Ordered 0 [(0, 2), (3, 1), (3, 1), (10, 2), (12, 1)] := by simp [Ordered]
  exact ⟨⟨by decide, ordered⟩, by decide +kernel, (allowAll_countP_le 10 3 (by decide) 0 _ ordered 1).1⟩

end SlidingWindow

structure SlidingWindowRateLimiter where
  windowSize : Int
  maxRequests : Int
  cleanupInterval : Int
  perKeyRules : Bytes → Option RateLimitRule

def newSlidingWindowRateLimiter (windowSize maxRequests : Int) : SlidingWindowRateLimiter where
  windowSize := if windowSize ≤ 0 then minute else windowSize
  maxRequests := if maxRequests ≤ 0 then 100 else maxRequests
  cleanupInterval := 10 * minute
  perKeyRules := fun _ => none

structure WindowCall where
  n : Int
  windowSize : Option Int
  maxRequests : Option Int

namespace SlidingWindowRateLimiter

def setRuleForKey (rl : SlidingWindowRateLimiter) (key : Bytes) (rule : RateLimitRule) :
    SlidingWindowRateLimiter :=
  { rl with perKeyRules := Function.update rl.perKeyRules key (some rule) }

def getWindowSize (rl : SlidingWindowRateLimiter) (key : Bytes) : Int :=
  match rl.perKeyRules key with
  | some rule => if 0 < rule.windowSize then rule.windowSize else rl.windowSize
  | none => rl.windowSize

variable (timesSeconds : Int → Int → Int)

def getMaxRequests (rl : SlidingWindowRateLimiter) (key : Bytes) : Int :=
  match rl.perKeyRules key with
  | some rule =>
    if 0 < rule.requestsPerSecond then timesSeconds rule.requestsPerSecond rule.windowSize else rl.maxRequests
  | none => rl.maxRequests

def windows (cleanupInterval : Int) :
    Pool Bytes SlidingWindow SlidingWindowRateLimiter (Bytes × RateLimitRule) WindowCall Int where
  start n := { n := n, windowSize := none, maxRequests := none }
  configure rl change := rl.setRuleForKey change.1 change.2
  fresh _ _ now := newSlidingWindow now
  prepare rl key call :=
    match call.windowSize, call.maxRequests with
    | none, _ => some { call with windowSize := some (rl.getWindowSize key) }
    | some _, none => some { call with maxRequests := some (rl.getMaxRequests timesSeconds key) }
    | some _, some _ => none
  spend w call now :=
    match call.windowSize, call.maxRequests with
    | some windowSize, some maxRequests => w.allowN call.n windowSize maxRequests now
    | _, _ => none
  record call now := List.replicate call.n.toNat now
  lastSeen w := w.lastSeen
  interval := cleanupInterval

abbrev State := Pool.State Bytes SlidingWindow SlidingWindowRateLimiter WindowCall Int

abbrev Label := Pool.Label Bytes (Bytes × RateLimitRule)

abbrev machine (rl : SlidingWindowRateLimiter) (begin : Int) : Machine State Label :=
  (windows timesSeconds rl.cleanupInterval).machine rl begin

def Outdated (key : Bytes) (rl : SlidingWindowRateLimiter) (now : Int) (w : SlidingWindow) : Prop :=
  ∀ t ∈ w.requests, t ≤ now - rl.getWindowSize key

instance (key : Bytes) (rl : SlidingWindowRateLimiter) (now : Int) (w : SlidingWindow) :
    Decidable (Outdated key rl now w) := by
  unfold Outdated
  infer_instance

def Loosens (key : Bytes) (c : State) (change : Bytes × RateLimitRule) : Prop :=
  change.1 = key →
    (c.settings.setRuleForKey key change.2).getWindowSize key ≤ c.settings.getWindowSize key ∧
        c.settings.getMaxRequests timesSeconds key ≤
          (c.settings.setRuleForKey key change.2).getMaxRequests timesSeconds key ∨
      c.log key = [] ∧ c.calls.any (Pool.Call.pending key) = false

instance (key : Bytes) (c : State) (change : Bytes × RateLimitRule) :
    Decidable (Loosens timesSeconds key c change) := by
  unfold Loosens
  infer_instance

abbrev CleansUp (key : Bytes) : State → Label → Prop :=
  Pool.Guarded key (Outdated key) (Loosens timesSeconds key)

variable {timesSeconds} {rl : SlidingWindowRateLimiter} {key key' : Bytes} {rule : RateLimitRule}

theorem getWindowSize_pos (positive : 0 < rl.windowSize) (key : Bytes) : 0 < rl.getWindowSize key := by
  unfold getWindowSize
  split
  · split_ifs with given
    · exact given
    · exact positive
  · exact positive

theorem getWindowSize_setRule_of_ne (other : key' ≠ key) :
    (rl.setRuleForKey key' rule).getWindowSize key = rl.getWindowSize key := by
  simp only [getWindowSize, setRuleForKey, Function.update_of_ne (Ne.symm other)]

theorem getMaxRequests_setRule_of_ne (other : key' ≠ key) :
    (rl.setRuleForKey key' rule).getMaxRequests timesSeconds key = rl.getMaxRequests timesSeconds key := by
  simp only [getMaxRequests, setRuleForKey, Function.update_of_ne (Ne.symm other)]

def Bounded (timesSeconds : Int → Int → Int) (key : Bytes) (rl : SlidingWindowRateLimiter)
    (log stored : List Int) (now : Int) : Prop :=
  0 < rl.windowSize ∧
    Windowed (rl.getWindowSize key) (rl.getMaxRequests timesSeconds key).toNat log stored now

def FitsCall (timesSeconds : Int → Int → Int) (key : Bytes) (rl : SlidingWindowRateLimiter)
    (call : WindowCall) : Prop :=
  (∀ windowSize ∈ call.windowSize, rl.getWindowSize key ≤ windowSize) ∧
    ∀ maxRequests ∈ call.maxRequests, maxRequests ≤ rl.getMaxRequests timesSeconds key

variable {c : State} {change : Bytes × RateLimitRule}

theorem Bounded.loosen {stored : List Int} {now : Int}
    (bounded : Bounded timesSeconds key c.settings (c.log key) stored now)
    (loosens : Loosens timesSeconds key c change) :
    Bounded timesSeconds key (c.settings.setRuleForKey change.1 change.2) (c.log key) stored now := by
  refine ⟨bounded.1, ?_⟩
  by_cases same : change.1 = key
  · rcases loosens same with ⟨shorter, more⟩ | ⟨unused, -⟩
    · rw [same]
      exact bounded.2.relax shorter (Int.toNat_le_toNat more)
    · -- nothing was admitted, so nothing is stored
      obtain ⟨horizon, -, kept⟩ := bounded.2.kept
      rw [unused] at kept ⊢
      rw [kept]
      exact windowed_nil _ _ _
  · rw [getWindowSize_setRule_of_ne same, getMaxRequests_setRule_of_ne same]
    exact bounded.2

theorem FitsCall.loosen {call : WindowCall}
    (fits : FitsCall timesSeconds key c.settings call) (loosens : Loosens timesSeconds key c change)
    (pending : c.calls.any (Pool.Call.pending key) = true) :
    FitsCall timesSeconds key (c.settings.setRuleForKey change.1 change.2) call := by
  by_cases same : change.1 = key
  · rcases loosens same with ⟨shorter, more⟩ | ⟨-, idle⟩
    · rw [same]
      exact ⟨fun W member => shorter.trans (fits.1 W member), fun M member => (fits.2 M member).trans more⟩
    · rw [pending] at idle
      cases idle
  · rw [FitsCall, getWindowSize_setRule_of_ne same, getMaxRequests_setRule_of_ne same]
    exact fits

def upkeep (timesSeconds : Int → Int → Int) (cleanupInterval : Int) (key : Bytes) :
    (windows timesSeconds cleanupInterval).Upkeep key (Outdated key) (Loosens timesSeconds key) where
  Live rl log now w := Bounded timesSeconds key rl log w.requests now
  Gone rl log now := Bounded timesSeconds key rl log [] now
  Fits rl call := FitsCall timesSeconds key rl call
  starts rl n := by
    constructor
    · rintro W ⟨⟩
    · rintro M ⟨⟩
  prepares := by
    rintro rl ⟨n, W, M⟩ call' ⟨long, few⟩ next
    cases W with
    | none =>
      cases next
      exact ⟨fun W member => by cases member; exact le_rfl, few⟩
    | some W =>
      cases M with
      | none =>
        cases next
        exact ⟨long, fun M member => by cases member; exact le_rfl⟩
      | some M => cases next
  makes gone := gone
  spends := by
    rintro rl log now w ⟨n, W, M⟩ w' granted ⟨positive, windowed⟩ ⟨long, few⟩ result
    cases W with
    | none => cases result
    | some W =>
      cases M with
      | none => cases result
      | some M =>
        exact ⟨positive, SlidingWindow.allowN_windowed windowed (getWindowSize_pos positive key) (long W rfl)
          (Int.toNat_le_toNat (few M rfl)) result⟩
  waits live later := ⟨live.1, live.2.later later⟩
  stays gone later := ⟨gone.1, gone.2.later later⟩
  forgets live outdated := ⟨live.1, live.2.forget outdated⟩
  configuresLive loosens live := live.loosen loosens
  configuresGone loosens gone := gone.loosen loosens
  configuresFits := by
    rintro c change call loosens pending fits
    refine fits.loosen loosens (List.any_eq_true.mpr ?_)
    rcases pending with member | ⟨id, member⟩
    · exact ⟨_, member, by simp [Pool.Call.pending]⟩
    · exact ⟨_, member, by simp [Pool.Call.pending]⟩

theorem countP_le (timesSeconds : Int → Int → Int) (rl : SlidingWindowRateLimiter) (positive : 0 < rl.windowSize)
    (key : Bytes) {begin : Int} {ls : List Label} {c : State}
    (each : (rl.machine timesSeconds begin).EachStep (CleansUp timesSeconds key)
      (rl.machine timesSeconds begin).start ls)
    (run : (rl.machine timesSeconds begin).run (rl.machine timesSeconds begin).start ls = some c) (a : Int) :
    ((c.log key).countP fun t => a ≤ t ∧ t < a + c.settings.getWindowSize key) ≤
        (c.settings.getMaxRequests timesSeconds key).toNat ∧
      ((c.log key).countP fun t => a < t ∧ t ≤ a + c.settings.getWindowSize key) ≤
        (c.settings.getMaxRequests timesSeconds key).toNat := by
  have few := (upkeep timesSeconds rl.cleanupInterval key).log_invariant
    (P := fun rl log => ∀ p, Together (rl.getWindowSize key) p →
      log.countP p ≤ (rl.getMaxRequests timesSeconds key).toNat)
    (fun live => live.2.few) (fun gone => gone.2.few) ⟨positive, windowed_nil _ _ begin⟩ each run
  exact ⟨few _ (together_Ico a _), few _ (together_Ioc a _)⟩

def exactProduct (r d : Int) : Int := (r * d).tdiv second

theorem countP_le_outdated :
    ∃ (ls : List Label) (c : State),
      let rl := newSlidingWindowRateLimiter minute 1
      (rl.machine exactProduct 0).EachStep (CleansUp exactProduct [107]) (rl.machine exactProduct 0).start ls ∧
      (rl.machine exactProduct 0).run (rl.machine exactProduct 0).start ls = some c ∧
      c.log [107] = [0, 20 * minute, 20 * minute] ∧
      ((c.log [107]).countP fun t => 0 ≤ t ∧ t < 0 + c.settings.getWindowSize [107]) ≤
        (c.settings.getMaxRequests exactProduct [107]).toNat := by
  let rl := newSlidingWindowRateLimiter minute 1
  let ls : List Label := [.call [107] 1, .fetch 0, .prepare 0, .prepare 0, .spend 0,
    .wait (20 * minute).toNat, .wake, .visit [107], .look, .remove, .rest,
    .configure ([107], ⟨1, 0, 30 * second⟩), .call [107] 2, .fetch 1, .prepare 1, .prepare 1, .spend 1]
  have facts : ((rl.machine exactProduct 0).run (rl.machine exactProduct 0).start ls).map (fun c => c.log [107]) =
      some [0, 20 * minute, 20 * minute] := by decide +kernel
  obtain ⟨c, run, log⟩ := Option.map_eq_some_iff.mp facts
  have each : (rl.machine exactProduct 0).EachStep (CleansUp exactProduct [107])
      (rl.machine exactProduct 0).start ls := Machine.eachStep_of_checks (by decide +kernel)
  exact ⟨ls, c, each, run, log, (countP_le exactProduct rl (by decide) [107] each run 0).1⟩

theorem not_countP_le_long_window :
    ∃ (ls : List Label) (c : State),
      let rl := newSlidingWindowRateLimiter (60 * minute) 1
      (rl.machine exactProduct 0).run (rl.machine exactProduct 0).start ls = some c ∧
      ¬ ((c.log [107]).countP fun t => 0 ≤ t ∧ t < 0 + c.settings.getWindowSize [107]) ≤
        (c.settings.getMaxRequests exactProduct [107]).toNat := by
  let rl := newSlidingWindowRateLimiter (60 * minute) 1
  let ls : List Label := [.call [107] 1, .fetch 0, .prepare 0, .prepare 0, .spend 0,
    .wait (20 * minute).toNat, .wake, .visit [107], .look, .remove, .rest,
    .call [107] 1, .fetch 1, .prepare 1, .prepare 1, .spend 1]
  have facts : ((rl.machine exactProduct 0).run (rl.machine exactProduct 0).start ls).map
      (fun c => (c.log [107], c.settings.getWindowSize [107], c.settings.getMaxRequests exactProduct [107])) =
        some ([0, 20 * minute], 60 * minute, 1) := by decide +kernel
  obtain ⟨c, run, values⟩ := Option.map_eq_some_iff.mp facts
  obtain ⟨log, size, most⟩ := by simpa only [Prod.mk.injEq] using values
  refine ⟨ls, c, run, ?_⟩
  rw [log, size, most]
  decide +kernel

end SlidingWindowRateLimiter

end Mcp.RateLimit
