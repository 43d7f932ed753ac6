import Mathlib.Data.List.Count
import Mathlib.Data.List.Nodup

/-! # Numbering the uses of names -/

namespace Mcp.Lib.Numbering

variable {κ : Type*} [DecidableEq κ]

def number (used : κ → Nat) : List κ → List (κ × Nat)
  | [] => []
  | x :: xs => (x, used x + 1) :: number (Function.update used x (used x + 1)) xs

theorem mem_number_iff [BEq κ] [LawfulBEq κ] {used : κ → Nat} {names : List κ} {x : κ} {c : Nat} :
    (x, c) ∈ number used names ↔ used x < c ∧ c ≤ used x + names.count x := by
  induction names generalizing used with
  | nil =>
    simp only [number, List.not_mem_nil, List.count_nil, false_iff]
    omega
  | cons y names ih =>
    rw [number, List.mem_cons, ih, Prod.mk.injEq]
    by_cases same : x = y
    · subst same
      simp only [Function.update_self, List.count_cons_self, true_and]
      omega
    · simp [same, Ne.symm same]

theorem number_nodup (used : κ → Nat) (names : List κ) : (number used names).Nodup := by
  induction names generalizing used with
  | nil => exact List.nodup_nil
  | cons y names ih =>
    refine List.nodup_cons.mpr ⟨fun member => ?_, ih _⟩
    have later := (mem_number_iff.mp member).1
    rw [Function.update_self] at later
    omega

end Mcp.Lib.Numbering
