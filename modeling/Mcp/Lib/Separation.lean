import Mathlib.Data.List.Basic
import Mathlib.Order.Lattice

/-! # State that is separate for each key -/

namespace Mcp.Lib.Separation
open Function

variable {κ σ ε δ : Type*} [DecidableEq κ] (key : ε → κ) (act : σ → ε → σ × δ)

def run : (κ → σ) → List ε → List (ε × δ)
  | _, [] => []
  | s, e :: es => (e, (act (s (key e)) e).2) :: run (update s (key e) (act (s (key e)) e).1) es

def outcomes (watched : ε → Bool) (s : κ → σ) (es : List ε) : List (ε × δ) :=
  (run key act s es).filter fun x => watched x.1

variable {key act} {watched dropped : ε → Bool} {s s' : κ → σ} {e : ε} {es : List ε}

theorem outcomes_cons : outcomes key act watched s (e :: es) =
      (if watched e then [(e, (act (s (key e)) e).2)] else []) ++
        outcomes key act watched (update s (key e) (act (s (key e)) e).1) es := by
  cases seen : watched e with
  | true | false => simp [outcomes, run, seen]

def Inert (act : σ → ε → σ × δ) (e : ε) : Prop := ∃ outcome, ∀ s, act s e = (s, outcome)

theorem outcomes_filter (agree : ∀ e ∈ es, watched e → ¬ Inert act e → s (key e) = s' (key e))
    (apart : ∀ e ∈ es, ∀ e' ∈ es, watched e → dropped e' → e ≠ e' ∧ (¬ Inert act e → ¬ Inert act e' → key e ≠ key e')) :
    outcomes key act watched s es = outcomes key act watched s' (es.filter fun e => !dropped e) := by
  induction es generalizing s s' with
  | nil => rfl
  | cons e es ih =>
    have later := fun x (member : x ∈ es) => agree x (.tail e member)
    have apart' := fun x (member : x ∈ es) y (member' : y ∈ es) => apart x (.tail e member) y (.tail e member')
    rw [outcomes_cons]
    cases gone : dropped e with
    | true =>
      have unseen : watched e = false := by
        by_contra seen
        exact (apart e List.mem_cons_self e List.mem_cons_self (by simpa using seen) gone).1 rfl
      rw [List.filter_cons_of_neg (by simp [gone]), unseen]
      refine ih (fun x member seen active => ?_) apart'
      -- either the dropped event changes nothing, or its key is of no concern to those that are watched
      by_cases inert : Inert act e
      · obtain ⟨outcome, unchanged⟩ := inert
        rw [unchanged, update_eq_self]
        exact later x member seen active
      · have other := (apart x (.tail e member) e List.mem_cons_self seen gone).2 active inert
        rw [update_of_ne other]
        exact later x member seen active
    | false =>
      rw [List.filter_cons_of_pos (by simp [gone]), outcomes_cons]
      congr 1
      · cases seen : watched e with
        | true =>
          by_cases inert : Inert act e
          · obtain ⟨outcome, unchanged⟩ := inert
            rw [unchanged, unchanged]
          · rw [agree e List.mem_cons_self seen inert]
        | false => rfl
      · refine ih (fun x member seen active => ?_) apart'
        have same := later x member seen active
        by_cases equal : key x = key e
        · rw [equal] at same ⊢
          rw [update_self, update_self, same]
        · rw [update_of_ne equal, update_of_ne equal]
          exact same

end Mcp.Lib.Separation
