import Mcp.Lib.Float64
import Mathlib.Data.Rat.Defs
import Mathlib.Tactic.Ring

/-! # Fractions as `float64` -/

namespace Mcp.Lib.Float64

def nearestRatio (n d : ℕ) : ℕ :=
  let u := ulp (n / d)
  let q := n / (d * u)
  if 2 * (n % (d * u)) < d * u ∨ 2 * (n % (d * u)) = d * u ∧ q % 2 = 0 then q * u else (q + 1) * u

-- to the nearest `float64`, ties to even; what is beyond the largest one is not cut off
def round (q : ℚ) : ℚ := q.num.sign * nearestRatio (q.num.natAbs * 2 ^ 1074) q.den / 2 ^ 1074

theorem distance_comm (m n : ℕ) : distance m n = distance n m := Nat.add_comm ..

theorem distance_triangle (l m n : ℕ) : distance l n ≤ distance l m + distance m n := by
  unfold distance
  omega

theorem distance_add (k m n : ℕ) : distance (k + m) (k + n) = distance m n := by
  unfold distance
  omega

theorem distance_mul (k m n : ℕ) : distance (k * m) (k * n) = k * distance m n := by
  unfold distance
  rw [← Nat.mul_sub, ← Nat.mul_sub, Nat.mul_add]

theorem distance_nearest_le (n : ℕ) : 2 * distance (nearest n) n ≤ ulp n := by
  obtain ⟨parts, within, step⟩ := floor_ceil n
  unfold distance
  obtain ⟨value, low⟩ | ⟨value, high⟩ := nearest_cases n
  · rw [value]
    omega
  · rw [value, step]
    omega

variable {x n d k : ℕ}

theorem not_between (positive : n ≠ 0) (representable : nearest x = x) (above : n / ulp n * ulp n < x)
    (below : x < (n / ulp n + 1) * ulp n) : False := by
  have nonzero : x ≠ 0 := by omega
  have low := two_pow_le_floor positive
  have high := ceil_le_two_pow n
  have same : x.log2 = n.log2 := (Nat.log2_eq_iff nonzero).mpr ⟨by omega, by omega⟩
  have divides : ulp n ∣ x := by
    have spacing : ulp x = ulp n := by rw [ulp, ulp, same]
    exact spacing ▸ ulp_dvd_of_nearest representable
  obtain ⟨k, rfl⟩ := divides
  rw [Nat.mul_comm (ulp n)] at above below
  have more := Nat.lt_of_mul_lt_mul_right above
  have less := Nat.lt_of_mul_lt_mul_right below
  omega

theorem nearest_closest (representable : nearest x = x) (n : ℕ) : distance (nearest n) n ≤ distance x n := by
  by_cases zero : n = 0
  · rw [zero, nearest_zero]
    exact Nat.zero_le _
  obtain ⟨parts, within, step⟩ := floor_ceil n
  have outside : x ≤ n / ulp n * ulp n ∨ (n / ulp n + 1) * ulp n ≤ x := by
    by_contra inside
    rw [not_or, Nat.not_le, Nat.not_le] at inside
    exact not_between zero representable inside.1 inside.2
  unfold distance
  obtain ⟨value, near⟩ | ⟨value, near⟩ := nearest_cases n
  · rw [value]
    omega
  · rw [value]
    omega

theorem distance_nearestRatio_le (positive : 0 < d) : 2 * distance (d * nearestRatio n d) n ≤ d * ulp (n / d) := by
  have parts := Nat.div_add_mod n (d * ulp (n / d))
  have within := Nat.mod_lt n (Nat.mul_pos positive (ulp_pos (n / d)))
  have multiple (q : ℕ) : d * (q * ulp (n / d)) = d * ulp (n / d) * q := by ring
  have step : d * ulp (n / d) * (n / (d * ulp (n / d)) + 1) =
      d * ulp (n / d) * (n / (d * ulp (n / d))) + d * ulp (n / d) := Nat.mul_add_one ..
  unfold nearestRatio distance
  simp only
  split_ifs
  · rw [multiple]
    omega
  · rw [multiple, step]
    omega

theorem ulp_le_of_lt (small : n < 2 ^ (k + 53)) : ulp n ≤ 2 ^ k := by
  apply Nat.pow_le_pow_right (by decide)
  by_cases zero : n = 0
  · simp [zero]
  · have exponent := (Nat.log2_lt zero).mpr small
    omega

theorem two_pow_dvd_of_le (representable : nearest x = x) (large : 2 ^ (k + 52) ≤ x) : 2 ^ k ∣ x := by
  have nonzero : x ≠ 0 := Nat.ne_of_gt (Nat.lt_of_lt_of_le (Nat.two_pow_pos _) large)
  have exponent := (Nat.le_log2 nonzero).mpr large
  have spacing : 2 ^ k ∣ ulp x := Nat.pow_dvd_pow 2 (by omega)
  exact Nat.dvd_trans spacing (ulp_dvd_of_nearest representable)

theorem nearest_of_nearest_mul (positive : n ≠ 0) (representable : nearest (n * 2 ^ k) = n * 2 ^ k) :
    nearest n = n := by
  obtain small | large := Nat.lt_or_ge n (2 ^ 52)
  · exact nearest_of_lt (Nat.lt_trans small (by decide))
  apply nearest_of_dvd
  have exponent : (n * 2 ^ k).log2 = n.log2 + k := by
    have unit := Nat.two_pow_pos k
    rw [Nat.log2_eq_iff (Nat.mul_ne_zero positive unit.ne'), Nat.pow_add, Nat.add_right_comm, Nat.pow_add]
    constructor
    · exact Nat.mul_le_mul_right _ (Nat.log2_self_le positive)
    · exact Nat.mul_lt_mul_of_pos_right Nat.lt_log2_self unit
  have high := (Nat.le_log2 positive).mpr large
  have divides := ulp_dvd_of_nearest representable
  have spacing : ulp (n * 2 ^ k) = ulp n * 2 ^ k := by
    rw [ulp, ulp, exponent, ← Nat.pow_add]
    congr 1
    omega
  rw [spacing] at divides
  exact Nat.dvd_of_mul_dvd_mul_right (Nat.two_pow_pos k) divides

def seconds (s ms : ℕ) : ℕ := nearest (nearest s * 2 ^ 62 + nearestRatio (ms * 2 ^ 62) 1000)

def Near (x ms : ℕ) : Prop := 2 * distance (1000 * x) (ms * 2 ^ 62) < 2 ^ 62

variable {s ms x : ℕ}

theorem distance_fraction (below : ms < 1000) :
    2 * distance (1000 * nearestRatio (ms * 2 ^ 62) 1000) (ms * 2 ^ 62) ≤ 512000 := by
  have spacing : ulp (ms * 2 ^ 62 / 1000) ≤ 2 ^ 9 := ulp_le_of_lt (by omega)
  have near := distance_nearestRatio_le (n := ms * 2 ^ 62) (show 0 < 1000 by decide)
  omega

theorem distance_sum (below : ms < 1000) :
    2 * distance (1000 * (s * 2 ^ 62 + nearestRatio (ms * 2 ^ 62) 1000)) ((1000 * s + ms) * 2 ^ 62) ≤ 512000 := by
  rw [Nat.mul_add, Nat.add_mul, ← Nat.mul_assoc, distance_add]
  exact distance_fraction below

theorem fraction_lt (below : ms < 1000) : nearestRatio (ms * 2 ^ 62) 1000 < 2 ^ 62 := by
  have near := distance_fraction below
  unfold distance at near
  generalize nearestRatio (ms * 2 ^ 62) 1000 = fraction at near ⊢
  omega

theorem distance_seconds (below : ms < 1000) {bound : ℕ}
    (rounded : distance (seconds s ms) (s * 2 ^ 62 + nearestRatio (ms * 2 ^ 62) 1000) ≤ bound) :
    2 * distance (1000 * seconds s ms) ((1000 * s + ms) * 2 ^ 62) ≤ 2000 * bound + 512000 := by
  have sum := distance_sum (s := s) below
  have scaled := distance_mul 1000 (seconds s ms) (s * 2 ^ 62 + nearestRatio (ms * 2 ^ 62) 1000)
  have total := distance_triangle (1000 * seconds s ms)
    (1000 * (s * 2 ^ 62 + nearestRatio (ms * 2 ^ 62) 1000)) ((1000 * s + ms) * 2 ^ 62)
  omega

theorem near_seconds_of_lt (small : s < 2 ^ 43) (below : ms < 1000) : Near (seconds s ms) (1000 * s + ms) := by
  have whole : nearest s = s := nearest_of_lt (Nat.lt_trans small (by decide))
  have spacing : ulp (s * 2 ^ 62 + nearestRatio (ms * 2 ^ 62) 1000) ≤ 2 ^ 52 := by
    apply ulp_le_of_lt
    have fraction := fraction_lt below
    omega
  have rounded : distance (seconds s ms) (s * 2 ^ 62 + nearestRatio (ms * 2 ^ 62) 1000) ≤ 2 ^ 51 := by
    have half := distance_nearest_le (s * 2 ^ 62 + nearestRatio (ms * 2 ^ 62) 1000)
    rw [seconds, whole]
    omega
  have near := distance_seconds below rounded
  rw [Near]
  omega

theorem dvd_distance {m : ℕ} (left : d ∣ m) (right : d ∣ n) : d ∣ distance m n :=
  Nat.dvd_add (Nat.dvd_sub left right) (Nat.dvd_sub right left)

theorem near_seconds_of_near (whole : nearest s = s) (large : 2 ^ 43 ≤ s) (below : ms < 1000)
    (representable : nearest x = x) (near : Near x (1000 * s + ms)) : Near (seconds s ms) (1000 * s + ms) := by
  unfold Near at near
  have margin : 2 ^ 55 ∣ distance (1000 * x) ((1000 * s + ms) * 2 ^ 62) := by
    have high : 2 ^ (52 + 52) ≤ x := by
      unfold distance at near
      omega
    apply dvd_distance
    · obtain ⟨k, rfl⟩ := two_pow_dvd_of_le representable high
      exact ⟨125 * k, by ring⟩
    · exact ⟨(1000 * s + ms) * 2 ^ 7, by ring⟩
  have closest : distance (seconds s ms) (s * 2 ^ 62 + nearestRatio (ms * 2 ^ 62) 1000) ≤
      distance x (s * 2 ^ 62 + nearestRatio (ms * 2 ^ 62) 1000) := by
    rw [seconds, whole]
    exact nearest_closest representable _
  have rounded := distance_seconds below closest
  have sum := distance_sum (s := s) below
  have scaled := distance_mul 1000 x (s * 2 ^ 62 + nearestRatio (ms * 2 ^ 62) 1000)
  have total := distance_triangle (1000 * x) ((1000 * s + ms) * 2 ^ 62)
    (1000 * (s * 2 ^ 62 + nearestRatio (ms * 2 ^ 62) 1000))
  rw [distance_comm ((1000 * s + ms) * 2 ^ 62)] at total
  obtain ⟨k, multiple⟩ := margin
  rw [Near]
  omega

theorem whole_of_near (large : 2 ^ 53 ≤ s) (below : ms < 1000) (representable : nearest x = x)
    (near : Near x (1000 * s + ms)) : nearest s = s := by
  unfold Near at near
  have high : 2 ^ (62 + 52) ≤ x := by
    unfold distance at near
    omega
  obtain ⟨k, rfl⟩ := two_pow_dvd_of_le representable high
  have same : 1000 * k = 1000 * s + ms := by
    unfold distance at near
    omega
  obtain rfl : k = s := by omega
  rw [Nat.mul_comm] at representable
  exact nearest_of_nearest_mul (by omega) representable

theorem near_seconds_iff (below : ms < 1000) :
    Near (seconds s ms) (1000 * s + ms) ↔ ∃ x, nearest x = x ∧ Near x (1000 * s + ms) := by
  constructor
  · exact fun near => ⟨seconds s ms, nearest_nearest _, near⟩
  · rintro ⟨x, representable, near⟩
    obtain small | large := Nat.lt_or_ge s (2 ^ 43)
    · exact near_seconds_of_lt small below
    · have whole : nearest s = s := by
        obtain exact | huge := Nat.lt_or_ge s (2 ^ 53)
        · exact nearest_of_lt exact
        · exact whole_of_near huge below representable near
      exact near_seconds_of_near whole large below representable near

end Mcp.Lib.Float64
