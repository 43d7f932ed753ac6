import Mathlib.Algebra.BigOperators.Group.List.Basic
import Mathlib.Tactic.Linarith

/-! # Metering -/

namespace Mcp.Lib

section Levels

variable {T K : Type*} [LinearOrder T] [CommRing K]

def spent (log : List (T × K)) (t₁ t₂ : T) : K :=
  ((log.filter fun grant => t₁ ≤ grant.1 ∧ grant.1 ≤ t₂).map Prod.snd).sum

variable {log : List (T × K)} {t₁ t₂ t last now : T} {g level level' capacity : K} {supply : T → K}

theorem spent_concat_of_mem (after : t₁ ≤ t) (before : t ≤ t₂) :
    spent (log ++ [(t, g)]) t₁ t₂ = spent log t₁ t₂ + g := by
  simp [spent, after, before]

theorem spent_concat_of_lt (before : t₂ < t) : spent (log ++ [(t, g)]) t₁ t₂ = spent log t₁ t₂ := by
  simp [spent, before.not_ge]

theorem spent_until (past : ∀ grant ∈ log, grant.1 ≤ last) (later : last ≤ t₂) :
    spent log t₁ t₂ = spent log t₁ last := by
  unfold spent
  congr 2
  apply List.filter_congr
  intro grant member
  simp [past grant member, (past grant member).trans later]

theorem spent_of_past (past : ∀ grant ∈ log, grant.1 ≤ last) (later : last < t₁) : spent log t₁ t₂ = 0 := by
  have none : log.filter (fun grant => t₁ ≤ grant.1 ∧ grant.1 ≤ t₂) = [] := by
    apply List.filter_eq_nil_iff.mpr
    intro grant member
    simp [((past grant member).trans_lt later).not_ge]
  rw [spent, none, List.map_nil, List.sum_nil]

variable [LinearOrder K] [IsStrictOrderedRing K]

structure Metered (supply : T → K) (capacity : K) (log : List (T × K)) (last : T) (level : K) : Prop where
  past : ∀ grant ∈ log, grant.1 ≤ last
  room : 0 ≤ capacity
  nonneg : 0 ≤ level
  since : ∀ t ≤ last, spent log t last + level ≤ capacity + (supply last - supply t)
  bounded : ∀ t₁ t₂, t₁ ≤ t₂ → spent log t₁ t₂ ≤ capacity + (supply t₂ - supply t₁)

theorem metered_full (mono : ∀ t u, t ≤ u → supply t ≤ supply u) (room : 0 ≤ capacity) (now : T) :
    Metered supply capacity [] now capacity where
  past := by simp
  room := room
  nonneg := room
  since t before := by
    have supplied := mono _ _ before
    simp only [spent, List.filter_nil, List.map_nil, List.sum_nil]
    linarith
  bounded t₁ t₂ before := by
    have supplied := mono _ _ before
    simp only [spent, List.filter_nil, List.map_nil, List.sum_nil]
    linarith

theorem Metered.refill (mono : ∀ t u, t ≤ u → supply t ≤ supply u)
    (metered : Metered supply capacity log last level) (later : last ≤ now) (nonneg : 0 ≤ level')
    (filled : level' ≤ capacity) (supplied : level' ≤ level + (supply now - supply last)) :
    Metered supply capacity log now level' where
  past grant member := (metered.past grant member).trans later
  room := metered.room
  nonneg := nonneg
  since t before := by
    rw [spent_until metered.past later]
    -- before the last instant the old bound carries over, after it nothing was granted
    rcases le_or_gt t last with earlier | since
    · have bound := metered.since t earlier
      linarith
    · have unspent : spent log t last = 0 := spent_of_past metered.past since
      have supplied' := mono _ _ before
      rw [unspent]
      linarith
  bounded := metered.bounded

theorem Metered.grant (mono : ∀ t u, t ≤ u → supply t ≤ supply u)
    (metered : Metered supply capacity log last level) (enough : g ≤ level) :
    Metered supply capacity (log ++ [(last, g)]) last (level - g) := by
  have past : ∀ grant ∈ log ++ [(last, g)], grant.1 ≤ last := by
    intro grant member
    rcases List.mem_append.mp member with old | new
    · exact metered.past grant old
    · rw [List.mem_singleton.mp new]
  have since : ∀ t ≤ last,
      spent (log ++ [(last, g)]) t last + (level - g) ≤ capacity + (supply last - supply t) := by
    intro t before
    rw [spent_concat_of_mem before le_rfl]
    have bound := metered.since t before
    linarith
  refine ⟨past, metered.room, sub_nonneg.mpr enough, since, fun t₁ t₂ before => ?_⟩
  rcases lt_or_ge t₂ last with earlier | later
  · rw [spent_concat_of_lt earlier]
    exact metered.bounded t₁ t₂ before
  rcases le_or_gt t₁ last with began | after
  · rw [spent_until past later]
    have bound := since t₁ began
    have supplied := mono _ _ later
    linarith
  · rw [spent_of_past past after]
    have supplied := mono _ _ before
    have room := metered.room
    linarith

end Levels

section Windows

variable {T : Type*} [AddCommGroup T] [LinearOrder T]

def Together (size : T) (p : T → Bool) : Prop := ∀ x y, p x → p y → x - y < size

section Ordered

variable [IsOrderedAddMonoid T]

theorem together_Ico (a size : T) : Together size fun t => a ≤ t ∧ t < a + size := by
  intro x y inside inside'
  simp only [decide_eq_true_eq] at inside inside'
  exact sub_lt_iff_lt_add'.mpr (inside.2.trans_le (add_le_add_left inside'.1 size))

theorem together_Ioc (a size : T) : Together size fun t => a < t ∧ t ≤ a + size := by
  intro x y inside inside'
  simp only [decide_eq_true_eq] at inside inside'
  exact sub_lt_iff_lt_add'.mpr (inside.2.trans_lt (add_lt_add_left inside'.1 size))

end Ordered

structure Windowed (size : T) (most : ℕ) (log stored : List T) (now : T) : Prop where
  past : ∀ t ∈ log, t ≤ now
  kept : ∃ horizon ≤ now - size, stored = log.filter (horizon < ·)
  few : ∀ p, Together size p → log.countP p ≤ most

variable {size size' now now' : T} {most most' n : ℕ} {log stored : List T}

theorem windowed_nil (size : T) (most : ℕ) (now : T) : Windowed size most [] [] now where
  past := by simp
  kept := ⟨now - size, le_rfl, rfl⟩
  few := by simp

namespace Windowed

theorem forget (windowed : Windowed size most log stored now) (old : ∀ t ∈ stored, t ≤ now - size) :
    Windowed size most log [] now := by
  obtain ⟨horizon, before, rfl⟩ := windowed.kept
  refine ⟨windowed.past, ⟨now - size, le_rfl, ?_⟩, windowed.few⟩
  apply (List.filter_eq_nil_iff.mpr ?_).symm
  intro t member recent
  simp only [decide_eq_true_eq] at recent
  have counted : t ∈ log.filter (horizon < ·) := by simp [member, before.trans_lt recent]
  exact (old t counted).not_gt recent

variable [IsOrderedAddMonoid T]

theorem later (windowed : Windowed size most log stored now) (later : now ≤ now') :
    Windowed size most log stored now' := by
  obtain ⟨horizon, before, stored⟩ := windowed.kept
  exact ⟨fun t member => (windowed.past t member).trans later,
    ⟨horizon, before.trans (sub_le_sub_right later size), stored⟩, windowed.few⟩

theorem relax (windowed : Windowed size most log stored now) (smaller : size' ≤ size) (more : most ≤ most') :
    Windowed size' most' log stored now := by
  obtain ⟨horizon, before, stored⟩ := windowed.kept
  refine ⟨windowed.past, ⟨horizon, before.trans (sub_le_sub_left smaller now), stored⟩, fun p together => ?_⟩
  exact (windowed.few p fun x y px py => (together x y px py).trans_le smaller).trans more

theorem prune (windowed : Windowed size most log stored now) (larger : size ≤ size') :
    Windowed size most log (stored.filter (now - size' < ·)) now := by
  obtain ⟨horizon, before, stored⟩ := windowed.kept
  refine ⟨windowed.past, ⟨max horizon (now - size'), ?_, ?_⟩, windowed.few⟩
  · exact max_le before (sub_le_sub_left larger now)
  · rw [stored, List.filter_filter]
    simp only [max_lt_iff, Bool.decide_and, Bool.and_comm]

theorem countP_le_length (windowed : Windowed size most log stored now) {p : T → Bool} (together : Together size p)
    (present : p now) : log.countP p ≤ stored.length := by
  obtain ⟨horizon, before, rfl⟩ := windowed.kept
  rw [← List.countP_eq_length_filter]
  apply List.countP_mono_left
  intro t member inside
  have recent : now - size < t := sub_lt_comm.mp (together now t present inside)
  simpa using before.trans_lt recent

theorem add (windowed : Windowed size most log stored now) (positive : 0 < size) (enough : stored.length + n ≤ most) :
    Windowed size most (log ++ List.replicate n now) (stored ++ List.replicate n now) now := by
  refine ⟨?_, ?_, fun p together => ?_⟩
  · intro t member
    rcases List.mem_append.mp member with old | new
    · exact windowed.past t old
    · rw [List.eq_of_mem_replicate new]
  · obtain ⟨horizon, before, rfl⟩ := windowed.kept
    have recent : horizon < now := before.trans_lt (sub_lt_self now positive)
    exact ⟨horizon, before, by simp [recent]⟩
  · rw [List.countP_append, List.countP_replicate]
    split_ifs with present
    · exact (Nat.add_le_add_right (windowed.countP_le_length together present) n).trans enough
    · exact windowed.few p together

end Windowed

end Windows

end Mcp.Lib
