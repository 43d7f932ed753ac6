import Mathlib.Algebra.Order.Group.Int
import Mathlib.Tactic.Common

/-! # Retrying until an attempt succeeds -/

namespace Mcp.Lib

structure Schedule (ε : Type*) where
  pause : Nat → Nat
  late : Nat → Nat
  err : Nat → Option ε
  done : Nat → Option ε

namespace Schedule

variable {ε σ : Type*} (e : Schedule ε)

def Uncancelled : Prop := ∀ k, e.err k = none ∧ e.done k = none

/-- The clock does not stand still for ever. -/
def Advances : Prop := ∀ k, ∃ j, k ≤ j ∧ 0 < e.late j

def unchecked : Schedule ε := { e with err := fun _ => none }

def next (wait : Int → σ → Int) (k : Nat) (now : Int) (s : σ) : Int :=
  now + e.pause k + (wait (now + e.pause k) s).toNat + e.late k

def retry (attempt : Int → σ → Option (σ × Bool)) (wait : Int → σ → Int) : Nat → Nat → Int → σ → Option (Except ε Nat)
  | 0, _, _, _ => none
  | fuel + 1, k, now, s =>
    match e.err k with
    | some err => some (.error err)
    | none => (attempt now s).bind fun (s, succeeded) =>
      if succeeded then some (.ok (k + 1))
      else match e.done k with
        | some err => some (.error err)
        | none => retry attempt wait fuel (k + 1) (e.next wait k now s) s

variable {e} {attempt : Int → σ → Option (σ × Bool)} {wait : Int → σ → Int} {fuel k : Nat} {now : Int} {s s' : σ}

theorem next_ge (e : Schedule ε) (wait : Int → σ → Int) (k : Nat) (now : Int) (s : σ) :
    now + e.late k ≤ e.next wait k now s := by
  unfold next
  omega

theorem retry_succeeds (unseen : e.err k = none) (succeeds : attempt now s = some (s', true)) :
    e.retry attempt wait (fuel + 1) k now s = some (.ok (k + 1)) := by
  simp [retry, unseen, succeeds]

theorem retry_again (unseen : e.err k = none ∧ e.done k = none) (fails : attempt now s = some (s', false)) :
    e.retry attempt wait (fuel + 1) k now s = e.retry attempt wait fuel (k + 1) (e.next wait k now s') s' := by
  simp [retry, unseen, fails]

section
variable {Inv : σ → Prop} (refuses : ∀ now s, Inv s → ∃ s', attempt now s = some (s', false) ∧ Inv s')
include refuses

theorem retry_ne_ok (holds : Inv s) (r : Nat) : e.retry attempt wait fuel k now s ≠ some (.ok r) := by
  induction fuel generalizing k now s with
  | zero => simp [retry]
  | succ fuel ih =>
    obtain ⟨s', fails, holds'⟩ := refuses now s holds
    unfold retry
    split
    · simp
    · rw [fails]
      simp only [Option.bind_some, Bool.false_eq_true, if_false]
      split
      · simp
      · exact ih holds'

theorem retry_eq_none (uncancelled : e.Uncancelled) (holds : Inv s) : e.retry attempt wait fuel k now s = none := by
  induction fuel generalizing k now s with
  | zero => rfl
  | succ fuel ih =>
    obtain ⟨s', fails, holds'⟩ := refuses now s holds
    rw [retry_again (uncancelled k) fails]
    exact ih holds'

theorem retry_one_of_cancelled (cancelled : ¬ (e.err k = none ∧ e.done k = none)) (holds : Inv s) :
    ∃ err, e.retry attempt wait 1 k now s = some (.error err) := by
  obtain ⟨s', fails, -⟩ := refuses now s holds
  cases seen : e.err k with
  | some err => exact ⟨err, by simp [retry, seen]⟩
  | none =>
    cases taken : e.done k with
    | some err => exact ⟨err, by simp [retry, seen, fails, taken]⟩
    | none => exact absurd ⟨seen, taken⟩ cancelled

theorem exists_retry_eq_error (steps : Nat) (cancelled : ¬ (e.err (k + steps) = none ∧ e.done (k + steps) = none))
    (holds : Inv s) : ∃ fuel err, e.retry attempt wait fuel k now s = some (.error err) := by
  induction steps generalizing k now s with
  | zero => exact ⟨1, retry_one_of_cancelled refuses cancelled holds⟩
  | succ steps ih =>
    by_cases unseen : e.err k = none ∧ e.done k = none
    · obtain ⟨s', fails, holds'⟩ := refuses now s holds
      rw [← Nat.add_assoc, Nat.add_right_comm] at cancelled
      obtain ⟨fuel, err, returns⟩ :
        ∃ fuel err, e.retry attempt wait fuel (k + 1) (e.next wait k now s') s' = some (.error err) :=
          ih cancelled holds'
      exact ⟨fuel + 1, err, by rw [retry_again unseen fails, returns]⟩
    · exact ⟨1, retry_one_of_cancelled refuses unseen holds⟩

end

variable {P : Nat → Int → σ → Prop} {rank : Nat}

theorem exists_retry_eq_ok_of_rank (uncancelled : e.Uncancelled)
    (step : ∀ rank k now s, P rank now s → (∃ s', attempt now s = some (s', true)) ∨
      ∃ s', attempt now s = some (s', false) ∧ ∃ lower < rank, P lower (e.next wait k now s') s')
      (holds : P rank now s) :
    ∃ r ≤ k + rank + 1, ∃ fuel, e.retry attempt wait fuel k now s = some (.ok r) := by
  induction rank using Nat.strong_induction_on generalizing k now s with
  | _ rank ih =>
    rcases step rank k now s holds with ⟨s', succeeds⟩ | ⟨s', fails, lower, less, holds'⟩
    · exact ⟨k + 1, by omega, 1, retry_succeeds (uncancelled k).1 succeeds⟩
    · obtain ⟨r, bound, fuel, returns⟩ := ih lower less (k := k + 1) holds'
      exact ⟨r, by omega, fuel + 1, by rw [retry_again (uncancelled k) fails, returns]⟩

theorem exists_retry_eq_ok_of_advances (uncancelled : e.Uncancelled) (advances : e.Advances)
    (step : ∀ rank k now s, P rank now s → (∃ s', attempt now s = some (s', true)) ∨
      ∃ s', attempt now s = some (s', false) ∧
        ∃ lower ≤ rank, (0 < e.late k → lower < rank) ∧ P lower (e.next wait k now s') s')
    (holds : P rank now s) : ∃ fuel r, e.retry attempt wait fuel k now s = some (.ok r) := by
  induction rank using Nat.strong_induction_on generalizing k now s with
  | _ rank ih =>
    obtain ⟨j, after, positive⟩ := advances k
    obtain ⟨steps, rfl⟩ := Nat.exists_eq_add_of_le after
    clear after
    -- up to the attempt after which the clock advances, the rank may stay the same
    induction steps generalizing k now s with
    | zero =>
      rcases step rank k now s holds with ⟨s', succeeds⟩ | ⟨s', fails, lower, -, less, holds'⟩
      · exact ⟨1, k + 1, retry_succeeds (uncancelled k).1 succeeds⟩
      · obtain ⟨fuel, r, returns⟩ := ih lower (less positive) (k := k + 1) holds'
        exact ⟨fuel + 1, r, by rw [retry_again (uncancelled k) fails, returns]⟩
    | succ steps ih' =>
      rcases step rank k now s holds with ⟨s', succeeds⟩ | ⟨s', fails, lower, most, -, holds'⟩
      · exact ⟨1, k + 1, retry_succeeds (uncancelled k).1 succeeds⟩
      · have later : ∃ fuel r, e.retry attempt wait fuel (k + 1) (e.next wait k now s') s' = some (.ok r) := by
          rcases Nat.lt_or_eq_of_le most with less | rfl
          · exact ih lower less holds'
          · refine ih' holds' ?_
            rwa [Nat.add_right_comm, Nat.add_assoc]
        obtain ⟨fuel, r, returns⟩ := later
        exact ⟨fuel + 1, r, by rw [retry_again (uncancelled k) fails, returns]⟩

end Schedule

end Mcp.Lib
