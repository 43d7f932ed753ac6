import Mcp.Lib.Retry
import Mcp.RateLimit.SlidingWindow
import Mathlib.Algebra.Order.Archimedean.Basic

namespace Mcp.RateLimit
open Mcp.Lib Mcp.Auth

namespace TokenBucket

def timeToAvailable (b : TokenBucket) (n : Int) : Int :=
  let tokensNeeded := (n : ℚ) - b.tokens
  if tokensNeeded ≤ 0 then 0
  else
    let secondsNeeded := tokensNeeded / b.rate
    (secondsNeeded * second).num.tdiv (secondsNeeded * second).den

def waitN (b : TokenBucket) (n : Int) (schedule : Schedule String) (fuel : Nat) (begin : Int) :
    Option (Except String Nat) :=
  schedule.retry (fun now b => some (b.allowN n now)) (fun _ b => b.timeToAvailable n) fuel 0 begin b

end TokenBucket

namespace SlidingWindow

def oldest (first : Int) (requests : List Int) : Int :=
  requests.foldl (fun oldest reqTime => if reqTime < oldest then reqTime else oldest) first

def timeToAvailable (w : SlidingWindow) (windowSize now : Int) : Int :=
  match w.requests with
  | [] => 0
  | first :: rest =>
    let timeUntilAvailable := timeSub (oldest first (first :: rest) + windowSize) now
    if timeUntilAvailable < 0 then 0 else timeUntilAvailable

def waitN (w : SlidingWindow) (n windowSize maxRequests : Int) (schedule : Schedule String) (fuel : Nat) (begin : Int) :
    Option (Except String Nat) :=
  schedule.unchecked.retry (fun now w => allowN w n windowSize maxRequests now)
    (fun now w => timeToAvailable w windowSize now) fuel 0 begin w

end SlidingWindow

def TokenBucketRateLimiter.getBucket (rl : TokenBucketRateLimiter) (stored : Option TokenBucket) (key : Bytes)
    (now : Int) : TokenBucket :=
  stored.getD (rl.newBucket key now)

def TokenBucketRateLimiter.waitN (rl : TokenBucketRateLimiter) (stored : Option TokenBucket) (key : Bytes) (n : Int)
    (schedule : Schedule String) (begin : Int) (fuel : Nat) : Option (Except String Nat) :=
  (rl.getBucket stored key begin).waitN n schedule fuel begin

def getWindow (stored : Option SlidingWindow) (now : Int) : SlidingWindow := stored.getD (newSlidingWindow now)

def SlidingWindowRateLimiter.waitN (timesSeconds : Int → Int → Int) (rl : SlidingWindowRateLimiter)
    (stored : Option SlidingWindow) (key : Bytes) (n : Int) (schedule : Schedule String) (begin : Int) (fuel : Nat) :
    Option (Except String Nat) :=
  (getWindow stored begin).waitN n (rl.getWindowSize key) (rl.getMaxRequests timesSeconds key) schedule fuel begin

/-- Admitted after at most so many attempts. -/
def AdmittedWithin (most : Nat) (wait : Nat → Option (Except String Nat)) : Prop :=
  ∃ attempts ≤ most, ∃ fuel, wait fuel = some (.ok attempts)

structure BlocksUntil (cancelled : Prop) (wait : Nat → Option (Except String Nat)) : Prop where
  refused : ∀ fuel attempts, wait fuel ≠ some (.ok attempts)
  blocks : ¬ cancelled → ∀ fuel, wait fuel = none
  returns : cancelled → ∃ fuel err, wait fuel = some (.error err)

namespace TokenBucket

variable {b : TokenBucket} {n now : Int}

def gain (b : TokenBucket) : ℚ := seconds 1 * b.rate

theorem gain_pos (rate : 0 < b.rate) : 0 < b.gain := by
  have : (0 : ℚ) < seconds 1 := by norm_num [seconds, second]
  exact mul_pos this rate

structure Within (rate : ℚ) (n : Int) (rank : Nat) (now : Int) (b : TokenBucket) : Prop where
  rate : b.rate = rate
  room : n ≤ b.burst
  enough : (n : ℚ) ≤ (b.refill now).tokens + rank * b.gain

variable {rate : ℚ} {schedule : Schedule String}

theorem within_refill {rank : Nat} {later : Int} (positive : 0 < rate) (within : Within rate n rank now b)
    (short : ¬ (n : ℚ) ≤ (b.refill now).tokens) (order : now ≤ later) :
    ∃ lower ≤ rank, (now < later → lower < rank) ∧ Within rate n lower later (b.refill now) := by
  obtain ⟨rfl, room, enough⟩ := within
  have full : (b.refill now).tokens ≤ b.burst := min_le_left _ _
  have room' : (n : ℚ) ≤ b.burst := by exact_mod_cast room
  have gains := gain_pos positive
  have again (lower : Nat)
      (reach : (n : ℚ) ≤ (b.refill now).tokens + seconds (timeSub later now) * b.rate + lower * b.gain) :
      Within b.rate n lower later (b.refill now) := by
    refine ⟨rfl, room, ?_⟩
    rw [refill_eq]
    show (n : ℚ) ≤ min (b.burst : ℚ) ((b.refill now).tokens + seconds (timeSub later now) * b.rate) + lower * b.gain
    rw [← min_add_add_right]
    exact le_min (by nlinarith [Nat.cast_nonneg (α := ℚ) lower]) reach
  have zero : seconds 0 = 0 := by simp [seconds]
  rcases Int.lt_or_eq_of_le order with less | rfl
  · cases rank with
    | zero => exact absurd (by simpa using enough) short
    | succ rank =>
      refine ⟨rank, Nat.le_succ rank, fun _ => Nat.lt_succ_self rank, again rank ?_⟩
      have one : 1 ≤ timeSub later now := by
        unfold timeSub minInt maxInt
        omega
      have more : b.gain ≤ seconds (timeSub later now) * b.rate :=
        mul_le_mul_of_nonneg_right (seconds_mono one) positive.le
      push_cast at enough
      linarith
  · refine ⟨rank, Nat.le_refl rank, fun less => absurd less (Int.lt_irrefl _), again rank ?_⟩
    have none : timeSub now now = 0 := by
      unfold timeSub minInt maxInt
      omega
    rw [none, zero]
    linarith

theorem attempt_within (positive : 0 < rate) (rank k : Nat) (now : Int) (b : TokenBucket)
    (within : Within rate n rank now b) :
    (∃ b', some (b.allowN n now) = some (b', true)) ∨ ∃ b', some (b.allowN n now) = some (b', false) ∧
        ∃ lower ≤ rank, (0 < schedule.late k → lower < rank) ∧
          Within rate n lower (schedule.next (fun _ b => b.timeToAvailable n) k now b') b' := by
  by_cases enough : (n : ℚ) ≤ (b.refill now).tokens
  · exact .inl ⟨_, congrArg some (allowN_of_le enough)⟩
  · refine .inr ⟨_, congrArg some (allowN_of_not_le enough), ?_⟩
    have order := schedule.next_ge (fun _ b => b.timeToAvailable n) k now (b.refill now)
    have later : now ≤ schedule.next (fun _ b => b.timeToAvailable n) k now (b.refill now) := by omega
    obtain ⟨lower, most, less, within'⟩ := within_refill positive within enough later
    exact ⟨lower, most, fun advances => less (by omega), within'⟩

theorem waitN_admitted (rate : 0 < b.rate) (room : n ≤ b.burst)
    (uncancelled : schedule.Uncancelled) (advances : schedule.Advances) (begin : Int) :
    ∃ most, AdmittedWithin most fun fuel => b.waitN n schedule fuel begin := by
  obtain ⟨rank, bound⟩ := exists_nat_ge (((n : ℚ) - (b.refill begin).tokens) / b.gain)
  rw [div_le_iff₀ (gain_pos rate), sub_le_iff_le_add'] at bound
  have start : Within b.rate n rank begin b := ⟨rfl, room, bound⟩
  obtain ⟨fuel, attempts, returns⟩ : ∃ fuel attempts, b.waitN n schedule fuel begin = some (.ok attempts) :=
    Schedule.exists_retry_eq_ok_of_advances uncancelled advances (attempt_within rate) start
  exact ⟨attempts, attempts, Nat.le_refl _, fuel, returns⟩

theorem refuses (beyond : b.burst < n) (now : Int) : ∃ b', some (b.allowN n now) = some (b', false) ∧ b'.burst < n := by
  have short : ¬ (n : ℚ) ≤ (b.refill now).tokens := by
    have full : (b.refill now).tokens ≤ b.burst := min_le_left _ _
    have beyond' : (b.burst : ℚ) < n := by exact_mod_cast beyond
    linarith
  exact ⟨b.refill now, congrArg some (allowN_of_not_le short), beyond⟩

end TokenBucket

theorem blocksUntil_of_refuses {σ : Type*} {attempt : Int → σ → Option (σ × Bool)} {wait : Int → σ → Int}
    {Inv : σ → Prop}
    (refuses : ∀ now s, Inv s → ∃ s', attempt now s = some (s', false) ∧ Inv s') {s : σ} (holds : Inv s)
    (schedule : Schedule String) (begin : Int) :
    BlocksUntil (¬ schedule.Uncancelled) fun fuel => schedule.retry attempt wait fuel 0 begin s where
  refused _ attempts := Schedule.retry_ne_ok refuses holds attempts
  blocks uncancelled _ := Schedule.retry_eq_none refuses (not_not.mp uncancelled) holds
  returns cancelled := by
    obtain ⟨k, seen⟩ := not_forall.mp cancelled
    exact Schedule.exists_retry_eq_error (k := 0) refuses k (by rwa [Nat.zero_add]) holds

namespace SlidingWindow

variable {w : SlidingWindow} {n windowSize maxRequests now : Int}

theorem oldest_mem (first : Int) (requests : List Int) : oldest first requests ∈ first :: requests := by
  induction requests generalizing first with
  | nil => simp [oldest]
  | cons reqTime rest ih =>
    have member := ih (if reqTime < first then reqTime else first)
    show oldest (if reqTime < first then reqTime else first) rest ∈ first :: reqTime :: rest
    split_ifs at member ⊢ with less
    · exact List.mem_cons_of_mem _ member
    · rcases List.mem_cons.mp member with same | inside
      · rw [same]
        exact List.mem_cons_self
      · exact List.mem_cons_of_mem _ (List.mem_cons_of_mem _ inside)

structure Holds (windowSize n : Int) (rank : Nat) (now : Int) (w : SlidingWindow) : Prop where
  inside : (w.prune windowSize now).requests.length ≤ rank
  past : ∀ reqTime ∈ w.requests, reqTime ≤ now
  exact : w.requests.length + n ≤ maxInt

variable (windowSize maxRequests now) in
theorem allowN_exact (nonneg : 0 ≤ n) (fits : w.requests.length + n ≤ maxInt) :
    ((w.prune windowSize now).requests.length + n ≤ maxRequests →
      ∃ w', w.allowN n windowSize maxRequests now = some (w', true)) ∧
      (¬ (w.prune windowSize now).requests.length + n ≤ maxRequests →
        w.allowN n windowSize maxRequests now = some (w.prune windowSize now, false)) := by
  have shorter := w.length_prune_le windowSize now
  have exact : wrap ((w.prune windowSize now).requests.length + n) = (w.prune windowSize now).requests.length + n :=
    wrap_of_fits (by unfold minInt; omega) (by omega)
  unfold allowN
  dsimp only
  rw [exact]
  refine ⟨fun enough => ?_, fun short => if_neg short⟩
  rw [if_pos enough, if_pos (by omega)]
  exact ⟨_, rfl⟩

theorem oldest_expires (pause : Nat) (size : windowSize ≤ maxInt) (past : ∀ reqTime ∈ w.requests, reqTime ≤ now)
    (some : w.requests ≠ []) {later : Int}
    (order : now + pause + (w.timeToAvailable windowSize (now + pause)).toNat ≤ later) :
    ∃ reqTime ∈ w.requests, reqTime + windowSize ≤ later := by
  unfold timeToAvailable at order
  split at order
  · contradiction
  · rename_i first rest stored
    have member : oldest first (first :: rest) ∈ w.requests := by
      rw [stored]
      rcases List.mem_cons.mp (oldest_mem first (first :: rest)) with same | inside
      · rw [same]
        exact List.mem_cons_self
      · exact inside
    have before := past _ member
    refine ⟨_, member, ?_⟩
    dsimp only at order
    unfold timeSub at order
    split_ifs at order <;> (unfold minInt maxInt at *; omega)

variable {schedule : Schedule String}

theorem holds_prune {rank k : Nat} (size : windowSize ≤ maxInt) (room : n ≤ maxRequests)
    (holds : Holds windowSize n rank now w) (short : ¬ (w.prune windowSize now).requests.length + n ≤ maxRequests) :
    ∃ lower < rank, Holds windowSize n lower (schedule.next (fun now w => w.timeToAvailable windowSize now) k now
      (w.prune windowSize now)) (w.prune windowSize now) := by
  set pruned := w.prune windowSize now with eq
  set later := schedule.next (fun now w => w.timeToAvailable windowSize now) k now pruned with next
  have shorter : pruned.requests.length ≤ w.requests.length := w.length_prune_le windowSize now
  have past : ∀ reqTime ∈ pruned.requests, reqTime ≤ now := fun reqTime member =>
    holds.past reqTime (List.mem_of_mem_filter member)
  have some : pruned.requests ≠ [] := by
    intro none
    rw [none] at short
    exact short (by simpa using room)
  have order := schedule.next_ge (fun now w => w.timeToAvailable windowSize now) k now pruned
  obtain ⟨reqTime, member, expired⟩ : ∃ reqTime ∈ pruned.requests, reqTime + windowSize ≤ later := by
    refine oldest_expires (schedule.pause k) size past some ?_
    rw [next, Schedule.next]
    omega
  refine ⟨(pruned.prune windowSize later).requests.length, ?_, Nat.le_refl _, fun other member => ?_, ?_⟩
  · refine Nat.lt_of_lt_of_le ?_ holds.inside
    refine List.length_filter_lt_length_iff_exists.mpr ⟨reqTime, member, ?_⟩
    simp only [decide_eq_true_eq]
    omega
  · have := past other member
    omega
  · have := holds.exact
    omega

theorem attempt_holds (size : windowSize ≤ maxInt) (nonneg : 0 ≤ n) (room : n ≤ maxRequests)
    (rank k : Nat) (now : Int) (w : SlidingWindow) (holds : Holds windowSize n rank now w) :
    (∃ w', w.allowN n windowSize maxRequests now = some (w', true)) ∨
      ∃ w', w.allowN n windowSize maxRequests now = some (w', false) ∧ ∃ lower < rank,
          Holds windowSize n lower (schedule.next (fun now w => w.timeToAvailable windowSize now) k now w') w' := by
  obtain ⟨admits, rejects⟩ := allowN_exact windowSize maxRequests now nonneg holds.exact
  by_cases enough : (w.prune windowSize now).requests.length + n ≤ maxRequests
  · exact .inl (admits enough)
  · exact .inr ⟨_, rejects enough, holds_prune size room holds enough⟩

theorem waitN_admitted (size : windowSize ≤ maxInt) (nonneg : 0 ≤ n) (room : n ≤ maxRequests)
    (fits : w.requests.length + n ≤ maxInt) {begin : Int} (past : ∀ reqTime ∈ w.requests, reqTime ≤ begin)
    (uncancelled : schedule.unchecked.Uncancelled) :
    AdmittedWithin (w.requests.length + 1) fun fuel => w.waitN n windowSize maxRequests schedule fuel begin := by
  have start : Holds windowSize n w.requests.length begin w := ⟨List.length_filter_le _ _, past, fits⟩
  obtain ⟨attempts, bound, fuel, returns⟩ : ∃ attempts ≤ 0 + w.requests.length + 1, ∃ fuel,
      w.waitN n windowSize maxRequests schedule fuel begin = some (.ok attempts) :=
    Schedule.exists_retry_eq_ok_of_rank uncancelled (attempt_holds size nonneg room) start
  exact ⟨attempts, by omega, fuel, returns⟩

theorem refuses (nonneg : 0 ≤ n) (beyond : maxRequests < n) (now : Int) (w : SlidingWindow)
    (fits : w.requests.length + n ≤ maxInt) :
    ∃ w', w.allowN n windowSize maxRequests now = some (w', false) ∧ w'.requests.length + n ≤ maxInt := by
  have shorter := w.length_prune_le windowSize now
  exact ⟨_, (allowN_exact windowSize maxRequests now nonneg fits).2 (by omega), by omega⟩

end SlidingWindow

theorem waiting_ends (schedule : Schedule String) (begin n : Int) (nonneg : 0 ≤ n) :
    (∀ (rl : TokenBucketRateLimiter) stored key, 0 < (rl.getBucket stored key begin).rate →
      (n ≤ (rl.getBucket stored key begin).burst → schedule.Uncancelled → schedule.Advances →
          ∃ most, AdmittedWithin most (rl.waitN stored key n schedule begin)) ∧
        ((rl.getBucket stored key begin).burst < n →
          BlocksUntil (¬ schedule.Uncancelled) (rl.waitN stored key n schedule begin))) ∧
      ∀ timesSeconds (rl : SlidingWindowRateLimiter) stored key, rl.getWindowSize key ≤ maxInt →
        (∀ reqTime ∈ (getWindow stored begin).requests, reqTime ≤ begin) →
        (getWindow stored begin).requests.length + n ≤ maxInt →
        (n ≤ rl.getMaxRequests timesSeconds key → schedule.unchecked.Uncancelled →
            AdmittedWithin ((getWindow stored begin).requests.length + 1)
              (rl.waitN timesSeconds stored key n schedule begin)) ∧
          (rl.getMaxRequests timesSeconds key < n →
            BlocksUntil (¬ schedule.unchecked.Uncancelled) (rl.waitN timesSeconds stored key n schedule begin)) := by
  refine ⟨fun rl stored key rate => ⟨fun room uncancelled advances => ?_, fun beyond => ?_⟩,
    fun timesSeconds rl stored key size past fits => ⟨fun room uncancelled => ?_, fun beyond => ?_⟩⟩
  · exact TokenBucket.waitN_admitted rate room uncancelled advances begin
  · exact blocksUntil_of_refuses (fun now b beyond => TokenBucket.refuses beyond now) beyond schedule begin
  · exact SlidingWindow.waitN_admitted size nonneg room fits past uncancelled
  · exact blocksUntil_of_refuses
      (fun now w fits => SlidingWindow.refuses nonneg beyond now w fits) fits schedule.unchecked begin

open SlidingWindowRateLimiter (exactProduct)

def steady : Schedule String := { pause := fun _ => 0, late := fun _ => 1, err := fun _ => none, done := fun _ => none }

theorem waiting_ends_at_capacity :
    (∃ most, AdmittedWithin most ((newTokenBucketRateLimiter 1 3).waitN (some ⟨0, 0, 1, 3, 0⟩) [107] 3 steady 0)) ∧
      AdmittedWithin 3 ((newSlidingWindowRateLimiter second 3).waitN exactProduct (some ⟨[-1, 0], 0⟩)
        [107] 3 steady 0) := by
  obtain ⟨bucket, window⟩ := waiting_ends steady 0 3 (by decide)
  have rate : 0 < ((newTokenBucketRateLimiter 1 3).getBucket (some ⟨0, 0, 1, 3, 0⟩) [107] 0).rate := by decide +kernel
  constructor
  · exact (bucket _ _ _ rate).1 (by decide +kernel) (fun _ => ⟨rfl, rfl⟩) fun k => ⟨k, Nat.le_refl k, Nat.one_pos⟩
  · exact (window exactProduct (newSlidingWindowRateLimiter second 3) (some ⟨[-1, 0], 0⟩) [107] (by decide +kernel)
      (by decide +kernel) (by decide +kernel)).1 (by decide +kernel) fun _ => ⟨rfl, rfl⟩

theorem waiting_never_ends :
    (∀ fuel, (newTokenBucketRateLimiter 1 1).waitN none [107] 2 steady 0 fuel = none) ∧
      ∀ fuel, (newSlidingWindowRateLimiter second 1).waitN exactProduct none [107] 2 steady 0 fuel = none := by
  have beyond : ((newTokenBucketRateLimiter 1 1).getBucket none [107] 0).burst < 2 := by decide +kernel
  have beyond' : (newSlidingWindowRateLimiter second 1).getMaxRequests exactProduct [107] < 2 := by decide +kernel
  have fits : ((getWindow none 0).requests.length : Int) + 2 ≤ maxInt := by decide +kernel
  constructor
  · exact fun fuel => Schedule.retry_eq_none (fun now b beyond => TokenBucket.refuses beyond now)
      (fun _ => ⟨rfl, rfl⟩) beyond
  · exact fun fuel => Schedule.retry_eq_none
      (fun now w fits => SlidingWindow.refuses (by decide) beyond' now w fits) (fun _ => ⟨rfl, rfl⟩) fits

end Mcp.RateLimit
