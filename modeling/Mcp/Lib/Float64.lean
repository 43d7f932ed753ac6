import Mathlib.Algebra.Order.Ring.Int
import Mathlib.Algebra.Ring.Divisibility.Basic

/-! # Whole numbers as `float64` -/

namespace Mcp.Lib.Float64

def ulp (n : ℕ) : ℕ := 2 ^ (n.log2 - 52)

def nearest (n : ℕ) : ℕ :=
  if 2 * (n % ulp n) < ulp n ∨ 2 * (n % ulp n) = ulp n ∧ n / ulp n % 2 = 0 then n / ulp n * ulp n
  else (n / ulp n + 1) * ulp n

theorem ulp_pos (n : ℕ) : 0 < ulp n := Nat.two_pow_pos _

variable {k n d : ℕ}

theorem ulp_dvd (n : ℕ) (large : n.log2 ≤ k) : ulp n ∣ 2 ^ k :=
  Nat.pow_dvd_pow 2 (by omega)

theorem nearest_of_dvd (divides : ulp n ∣ n) : nearest n = n := by
  have exact : n % ulp n = 0 := Nat.mod_eq_zero_of_dvd divides
  rw [nearest, exact, if_pos (.inl (ulp_pos n)), Nat.div_mul_cancel divides]

theorem nearest_cases (n : ℕ) : nearest n = n / ulp n * ulp n ∧ 2 * (n % ulp n) ≤ ulp n ∨
      nearest n = (n / ulp n + 1) * ulp n ∧ ulp n ≤ 2 * (n % ulp n) := by
  unfold nearest
  split_ifs with down
  · exact .inl ⟨rfl, by omega⟩
  · exact .inr ⟨rfl, by omega⟩

theorem ulp_dvd_nearest (n : ℕ) : ulp n ∣ nearest n := by
  obtain ⟨value, -⟩ | ⟨value, -⟩ := nearest_cases n
  · exact ⟨n / ulp n, by rw [value, Nat.mul_comm]⟩
  · exact ⟨n / ulp n + 1, by rw [value, Nat.mul_comm]⟩

theorem floor_ceil (n : ℕ) : n / ulp n * ulp n + n % ulp n = n ∧ n % ulp n < ulp n ∧
    (n / ulp n + 1) * ulp n = n / ulp n * ulp n + ulp n :=
  ⟨Nat.div_add_mod' n (ulp n), Nat.mod_lt n (ulp_pos n), Nat.add_one_mul ..⟩

theorem nearest_bounds (n : ℕ) : n / ulp n * ulp n ≤ nearest n ∧ nearest n ≤ (n / ulp n + 1) * ulp n := by
  have step := (floor_ceil n).2.2
  obtain ⟨value, -⟩ | ⟨value, -⟩ := nearest_cases n
  · rw [value]
    omega
  · rw [value]
    omega

theorem two_pow_le_floor (positive : n ≠ 0) : 2 ^ n.log2 ≤ n / ulp n * ulp n := by
  obtain ⟨c, factor⟩ := ulp_dvd n (Nat.le_refl n.log2)
  have quotient : c ≤ n / ulp n := by
    rw [Nat.le_div_iff_mul_le (ulp_pos n), Nat.mul_comm, ← factor]
    exact Nat.log2_self_le positive
  rw [factor, Nat.mul_comm]
  exact Nat.mul_le_mul_right _ quotient

theorem ceil_le_two_pow (n : ℕ) : (n / ulp n + 1) * ulp n ≤ 2 ^ (n.log2 + 1) := by
  obtain ⟨c, factor⟩ := ulp_dvd n (Nat.le_succ n.log2)
  have quotient : n / ulp n < c := by
    rw [Nat.div_lt_iff_lt_mul (ulp_pos n), Nat.mul_comm, ← factor]
    exact Nat.lt_log2_self
  rw [factor, Nat.mul_comm (ulp n)]
  exact Nat.mul_le_mul_right _ quotient

theorem le_nearest (positive : n ≠ 0) : 2 ^ n.log2 ≤ nearest n :=
  Nat.le_trans (two_pow_le_floor positive) (nearest_bounds n).1

theorem nearest_le (n : ℕ) : nearest n ≤ 2 ^ (n.log2 + 1) :=
  Nat.le_trans (nearest_bounds n).2 (ceil_le_two_pow n)

theorem nearest_zero : nearest 0 = 0 := rfl

theorem nearest_mono {m : ℕ} (le : m ≤ n) : nearest m ≤ nearest n := by
  by_cases zero : m = 0
  · rw [zero, nearest_zero]
    exact Nat.zero_le _
  have positive : n ≠ 0 := by omega
  obtain lower | same : m.log2 < n.log2 ∨ m.log2 = n.log2 := by
    have : m.log2 ≤ n.log2 := (Nat.le_log2 positive).mpr (Nat.le_trans (Nat.log2_self_le zero) le)
    omega
  · calc nearest m ≤ 2 ^ (m.log2 + 1) := nearest_le m
      _ ≤ 2 ^ n.log2 := Nat.pow_le_pow_right (by decide) lower
      _ ≤ nearest n := le_nearest positive
  · have spacing : ulp m = ulp n := by rw [ulp, ulp, same]
    obtain less | equal := Nat.lt_or_eq_of_le (Nat.div_le_div_right (c := ulp n) le)
    · calc nearest m ≤ (m / ulp m + 1) * ulp m := (nearest_bounds m).2
        _ = (m / ulp n + 1) * ulp n := by rw [spacing]
        _ ≤ n / ulp n * ulp n := Nat.mul_le_mul_right _ less
        _ ≤ nearest n := (nearest_bounds n).1
    · -- The remainders are in the same order as the numbers.
      have left := Nat.div_add_mod m (ulp n)
      have right := Nat.div_add_mod n (ulp n)
      have step := (floor_ceil n).2.2
      rw [equal] at left
      unfold nearest
      rw [spacing, equal]
      split_ifs <;> omega

theorem nearest_nearest (n : ℕ) : nearest (nearest n) = nearest n := by
  by_cases zero : n = 0
  · rw [zero, nearest_zero, nearest_zero]
  apply nearest_of_dvd
  have low := le_nearest zero
  have nonzero : nearest n ≠ 0 := Nat.ne_of_gt (Nat.lt_of_lt_of_le (Nat.two_pow_pos _) low)
  obtain within | next := Nat.lt_or_eq_of_le (nearest_le n)
  · have same : (nearest n).log2 = n.log2 := (Nat.log2_eq_iff nonzero).mpr ⟨low, within⟩
    have spacing : ulp (nearest n) = ulp n := by rw [ulp, ulp, same]
    rw [spacing]
    exact ulp_dvd_nearest n
  · have exponent : (nearest n).log2 = n.log2 + 1 := by rw [next, Nat.log2_two_pow]
    have divides := ulp_dvd (nearest n) (Nat.le_of_eq exponent)
    rwa [← next] at divides

def candidate (f p : ℕ) : Option ℕ :=
  let low := f / p * p
  let high := low + p
  if nearest low = f then
    if nearest high = f ∧ (p < 2 * (f - low) ∨ p = 2 * (f - low) ∧ f / p % 2 = 1) then some high else some low
  else if nearest high = f then some high
  else none

def shortestFrom (f : ℕ) : ℕ → ℕ
  | 0 => f
  | k + 1 => (candidate f (10 ^ (k + 1))).getD (shortestFrom f k)

def shortest (f : ℕ) : ℕ := shortestFrom f (f.log2 + 1)

def distance (m n : ℕ) : ℕ := m - n + (n - m)

structure Closest (f p m : ℕ) : Prop where
  divides : p ∣ m
  rounds : nearest m = f
  closest : ∀ m', p ∣ m' → nearest m' = f → distance m f ≤ distance m' f

variable {f p m : ℕ}

theorem multiple_cases (divides : p ∣ m) (f : ℕ) : m ≤ f / p * p ∨ f / p * p + p ≤ m := by
  obtain ⟨c, rfl⟩ := divides
  rw [Nat.mul_comm p c, ← Nat.add_one_mul]
  obtain low | high := Nat.lt_or_ge (f / p) c
  · exact .inr (Nat.mul_le_mul_right _ low)
  · exact .inl (Nat.mul_le_mul_right _ high)

theorem neighbour_rounds (representable : nearest f = f) (positive : 0 < p) (divides : p ∣ m) (rounds : nearest m = f) :
    m ≤ f / p * p ∧ nearest (f / p * p) = f ∨ f / p * p + p ≤ m ∧ nearest (f / p * p + p) = f := by
  obtain below | above := multiple_cases divides f
  · have lower := nearest_mono below
    have upper := nearest_mono (Nat.div_mul_le_self f p)
    exact .inl ⟨below, by omega⟩
  · have upper := nearest_mono above
    have lower := nearest_mono (Nat.le_of_lt (Nat.lt_div_mul_add (a := f) positive))
    exact .inr ⟨above, by omega⟩

theorem candidate_eq_none (representable : nearest f = f) (positive : 0 < p) (none : candidate f p = none) :
    ¬ (p ∣ m ∧ nearest m = f) := by
  rintro ⟨divides, rounds⟩
  unfold candidate at none
  simp only at none
  split_ifs at none with low _ high
  obtain ⟨-, rounds'⟩ | ⟨-, rounds'⟩ := neighbour_rounds representable positive divides rounds
  · exact low rounds'
  · exact high rounds'

theorem candidate_eq_some (representable : nearest f = f) (positive : 0 < p) (found : candidate f p = some m) :
    Closest f p m := by
  have low : f / p * p ≤ f := Nat.div_mul_le_self f p
  have high : f < f / p * p + p := Nat.lt_div_mul_add positive
  have lowDivides : p ∣ f / p * p := Nat.dvd_mul_left ..
  have highDivides : p ∣ f / p * p + p := Nat.dvd_add lowDivides (Nat.dvd_refl p)
  unfold candidate at found
  simp only at found
  split_ifs at found with lowRounds both highRounds
  · cases found
    refine ⟨highDivides, both.1, fun m' divides rounds => ?_⟩
    unfold distance
    obtain ⟨below, -⟩ | ⟨above, -⟩ := neighbour_rounds representable positive divides rounds <;> omega
  · cases found
    refine ⟨lowDivides, lowRounds, fun m' divides rounds => ?_⟩
    unfold distance
    obtain ⟨below, -⟩ | ⟨above, rounds'⟩ := neighbour_rounds representable positive divides rounds
    · omega
    · have closer := (not_and.mp both) rounds'
      omega
  · cases found
    refine ⟨highDivides, highRounds, fun m' divides rounds => ?_⟩
    unfold distance
    obtain ⟨-, rounds'⟩ | ⟨above, -⟩ := neighbour_rounds representable positive divides rounds
    · exact absurd rounds' lowRounds
    · omega

theorem shortestFrom_spec (representable : nearest f = f) (k : ℕ) : ∃ j ≤ k, Closest f (10 ^ j) (shortestFrom f k) ∧
      ∀ i ≤ k, ∀ m, 10 ^ i ∣ m → nearest m = f → i ≤ j := by
  induction k with
  | zero =>
    refine ⟨0, Nat.le_refl 0, ⟨by simp, representable, fun m' _ _ => ?_⟩, fun i le _ _ _ => le⟩
    simp [shortestFrom, distance]
  | succ k ih =>
    cases found : candidate f (10 ^ (k + 1)) with
    | some m =>
      have closest := candidate_eq_some representable (Nat.pow_pos (by decide)) found
      refine ⟨k + 1, Nat.le_refl _, ?_, fun i le _ _ _ => le⟩
      rwa [shortestFrom, found, Option.getD_some]
    | none =>
      obtain ⟨j, le, closest, most⟩ := ih
      refine ⟨j, Nat.le_succ_of_le le, ?_, fun i le m divides rounds => ?_⟩
      · rwa [shortestFrom, found, Option.getD_none]
      · obtain less | rfl := Nat.lt_or_eq_of_le le
        · exact most i (Nat.le_of_lt_succ less) m divides rounds
        · exact absurd ⟨divides, rounds⟩ (candidate_eq_none representable (Nat.pow_pos (by decide)) found)

theorem shortest_spec (representable : nearest f = f) (nonzero : f ≠ 0) :
    ∃ j, Closest f (10 ^ j) (shortest f) ∧ ∀ i m, 10 ^ i ∣ m → nearest m = f → i ≤ j := by
  obtain ⟨j, -, closest, most⟩ := shortestFrom_spec representable (f.log2 + 1)
  refine ⟨j, closest, fun i m divides rounds => most i ?_ m divides rounds⟩
  have positive : m ≠ 0 := by
    rintro rfl
    exact nonzero (rounds.symm.trans nearest_zero)
  have exponent : m.log2 ≤ f.log2 := (Nat.le_log2 nonzero).mpr (rounds ▸ le_nearest positive)
  have power : i ≤ m.log2 := by
    rw [Nat.le_log2 positive]
    exact Nat.le_trans (Nat.pow_le_pow_left (by decide) i) (Nat.le_of_dvd (Nat.pos_of_ne_zero positive) divides)
  omega

def Canonical (n : ℕ) : Prop :=
  ∀ m, nearest m = nearest n →
    (∀ k, 10 ^ k ∣ m → 10 ^ k ∣ n) ∧
      ((∀ k, 10 ^ k ∣ n → 10 ^ k ∣ m) → distance n (nearest n) ≤ distance m (nearest n))

theorem ulp_dvd_of_nearest (representable : nearest f = f) : ulp f ∣ f := by
  have divides := ulp_dvd_nearest f
  rwa [representable] at divides

theorem le_ulp_of_nearest (nonzero : f ≠ 0) (rounds : nearest (f + d) = f) : 2 * d ≤ ulp f := by
  have low := le_nearest (n := f + d) (by omega)
  have order : f.log2 ≤ (f + d).log2 :=
    (Nat.le_log2 (by omega)).mpr (Nat.le_trans (Nat.log2_self_le nonzero) (Nat.le_add_right ..))
  have same : (f + d).log2 = f.log2 := by
    rw [rounds, ← Nat.le_log2 nonzero] at low
    omega
  have spacing : ulp (f + d) = ulp f := by rw [ulp, ulp, same]
  obtain ⟨split, remainder, step⟩ := floor_ceil (f + d)
  rw [← spacing]
  obtain ⟨value, half⟩ | ⟨value, -⟩ := nearest_cases (f + d) <;> omega

theorem no_tie (nonzero : f ≠ 0) (representable : nearest f = f) (between : ¬ 10 ^ k ∣ f) (le : d ≤ f)
    (low : 10 ^ k ∣ f - d) (high : 10 ^ k ∣ f + d) (rounds : nearest (f + d) = f) : False := by
  have positive : 0 < d := by
    rw [Nat.pos_iff_ne_zero]
    rintro rfl
    exact between high
  have gap : 10 ^ k ∣ 2 * d := by
    have difference := Nat.dvd_sub high low
    rwa [show f + d - (f - d) = 2 * d by omega] at difference
  have twice : 10 ^ k ∣ 2 * f := by
    have sum := Nat.dvd_add high low
    rwa [show f + d + (f - d) = 2 * f by omega] at sum
  have product : 10 ^ k = 2 ^ k * 5 ^ k := by rw [← Nat.mul_pow]
  -- The value is a multiple of five to that power, so not of two.
  have fives : 5 ^ k ∣ f := by
    have coprime : Nat.Coprime (5 ^ k) 2 := Nat.Coprime.pow_left k (by decide)
    exact coprime.dvd_of_dvd_mul_left (Nat.dvd_trans (product ▸ Nat.dvd_mul_left ..) twice)
  have odd : ¬ 2 ^ k ∣ f := by
    intro twos
    have coprime : Nat.Coprime (2 ^ k) (5 ^ k) := Nat.Coprime.pow k k (by decide)
    exact between (product ▸ coprime.mul_dvd_of_dvd_of_dvd twos fives)
  have exponent : f.log2 - 52 < k := by
    by_contra large
    exact odd (Nat.dvd_trans (Nat.pow_dvd_pow 2 (Nat.le_of_not_lt large)) (ulp_dvd_of_nearest representable))
  have few : 10 ^ k ≤ 2 * d := Nat.le_of_dvd (by omega) gap
  have small : 2 * d ≤ ulp f := le_ulp_of_nearest nonzero rounds
  have less : ulp f < 2 ^ k := Nat.pow_lt_pow_right (by decide) exponent
  have powers : 2 ^ k ≤ 10 ^ k := Nat.pow_le_pow_left (by decide) k
  omega

theorem nearest_eq_zero (zero : nearest n = 0) : n = 0 := by
  by_contra positive
  have low := le_nearest positive
  have := Nat.two_pow_pos n.log2
  omega

theorem Closest.unique {m' : ℕ} (nonzero : f ≠ 0) (representable : nearest f = f) (closest : Closest f (10 ^ k) m)
    (closest' : Closest f (10 ^ k) m') : m = m' := by
  have le := closest.closest m' closest'.divides closest'.rounds
  have ge := closest'.closest m closest.divides closest.rounds
  by_cases exact : 10 ^ k ∣ f
  · have least := closest.closest f exact representable
    unfold distance at *
    omega
  · by_contra different
    unfold distance at le ge
    have apart {low high : ℕ} (lower : Closest f (10 ^ k) low) (upper : Closest f (10 ^ k) high) (less : low < high)
        (equal : low - f + (f - low) = high - f + (f - high)) : False := by
      obtain ⟨d, bound, rfl, rfl⟩ : ∃ d ≤ f, low = f - d ∧ high = f + d := ⟨f - low, by omega, by omega, by omega⟩
      exact no_tie nonzero representable exact bound lower.divides upper.divides upper.rounds
    obtain less | greater := Nat.lt_or_gt_of_ne different
    · exact apart closest closest' less (by omega)
    · exact apart closest' closest greater (by omega)

theorem shortest_nearest_iff (n : ℕ) : shortest (nearest n) = n ↔ Canonical n := by
  by_cases zero : n = 0
  · subst zero
    refine iff_of_true rfl fun m same => ?_
    rw [nearest_eq_zero same]
    exact ⟨fun k divides => divides, fun _ => Nat.le_refl _⟩
  have nonzero : nearest n ≠ 0 := fun none => zero (nearest_eq_zero none)
  have representable := nearest_nearest n
  obtain ⟨j, closest, most⟩ := shortest_spec representable nonzero
  constructor
  · intro same m rounds
    rw [same] at closest
    refine ⟨fun k divides => ?_, fun zeros => ?_⟩
    · exact Nat.dvd_trans (Nat.pow_dvd_pow 10 (most k m divides rounds)) closest.divides
    · exact closest.closest m (zeros j closest.divides) rounds
  · intro canonical
    have same := canonical (shortest (nearest n)) closest.rounds
    have divides := same.1 j closest.divides
    apply closest.unique nonzero representable
    refine ⟨divides, rfl, fun m divides' rounds => ?_⟩
    have nearer := same.2 fun k divides'' =>
      Nat.dvd_trans (Nat.pow_dvd_pow 10 (most k n divides'' rfl)) closest.divides
    exact Nat.le_trans nearer (closest.closest m divides' rounds)

theorem nearest_of_lt (small : n < 2 ^ 53) : nearest n = n := by
  apply nearest_of_dvd
  have exponent : n.log2 ≤ 52 := by
    by_cases zero : n = 0
    · simp [zero]
    · exact Nat.le_of_lt_succ ((Nat.log2_lt zero).mpr small)
  rw [ulp, Nat.sub_eq_zero_of_le exponent, Nat.pow_zero]
  exact Nat.one_dvd n

theorem canonical_of_lt (small : n < 2 ^ 53) : Canonical n := by
  intro m same
  obtain rfl : m = n := by
    obtain less | large := Nat.lt_or_ge m (2 ^ 53)
    · rwa [nearest_of_lt less, nearest_of_lt small] at same
    · have order := nearest_mono large
      have power : nearest (2 ^ 53) = 2 ^ 53 := by decide
      rw [same, nearest_of_lt small, power] at order
      exact absurd small (Nat.not_lt.mpr order)
  exact ⟨fun k divides => divides, fun _ => Nat.le_refl _⟩

def signed (g : ℕ → ℕ) (n : ℤ) : ℤ := n.sign * g n.natAbs

theorem signed_signed_iff {n : ℤ} : signed shortest (signed nearest n) = n ↔ Canonical n.natAbs := by
  rw [← shortest_nearest_iff]
  by_cases zero : n = 0
  · subst zero
    exact iff_of_true rfl rfl
  · have nonzero : nearest n.natAbs ≠ 0 := fun none => zero (Int.natAbs_eq_zero.mp (nearest_eq_zero none))
    have sign : (signed nearest n).sign = n.sign := by
      rw [signed, Int.sign_mul, Int.sign_sign, Int.sign_natCast_of_ne_zero nonzero, mul_one]
    have size : (signed nearest n).natAbs = nearest n.natAbs := by
      rw [signed, Int.natAbs_mul, Int.natAbs_sign_of_ne_zero zero, one_mul, Int.natAbs_natCast]
    rw [signed, sign, size]
    constructor
    · intro same
      have sizes := congrArg Int.natAbs same
      rwa [Int.natAbs_mul, Int.natAbs_sign_of_ne_zero zero, one_mul, Int.natAbs_natCast] at sizes
    · intro same
      rw [same, Int.sign_mul_natAbs]

end Mcp.Lib.Float64
