import Mathlib.Order.Bounds.Defs
import Mathlib.Order.MinMax

/-! # Edit sequences -/

namespace Mcp.Lib.Editing

variable {α : Type*} {a b c : List α} {x y : α} {m n : Nat}

inductive Edit : List α → List α → Prop
  | insert (before after : List α) (x : α) : Edit (before ++ after) (before ++ x :: after)
  | delete (before after : List α) (x : α) : Edit (before ++ x :: after) (before ++ after)
  | substitute (before after : List α) (x y : α) : Edit (before ++ x :: after) (before ++ y :: after)

inductive Edits : Nat → List α → List α → Prop
  | refl (a : List α) : Edits 0 a a
  | step {n : Nat} {a b c : List α} (edit : Edit a b) (rest : Edits n b c) : Edits (n + 1) a c

theorem Edit.symm (edit : Edit a b) : Edit b a := by
  cases edit with
  | insert before after x => exact .delete before after x
  | delete before after x => exact .insert before after x
  | substitute before after x y => exact .substitute before after y x

theorem Edit.cons (edit : Edit a b) (x : α) : Edit (x :: a) (x :: b) := by
  cases edit with
  | insert before after y => exact .insert (x :: before) after y
  | delete before after y => exact .delete (x :: before) after y
  | substitute before after y z => exact .substitute (x :: before) after y z

theorem Edit.reverse (edit : Edit a b) : Edit a.reverse b.reverse := by
  cases edit with
  | insert before after x => simpa using Edit.insert after.reverse before.reverse x
  | delete before after x => simpa using Edit.delete after.reverse before.reverse x
  | substitute before after x y => simpa using Edit.substitute after.reverse before.reverse x y

theorem Edits.map {f : List α → List α} (single : ∀ a b, Edit a b → Edit (f a) (f b)) (edits : Edits n a b) :
    Edits n (f a) (f b) := by
  induction edits with
  | refl a => exact .refl (f a)
  | step edit _ ih => exact .step (single _ _ edit) ih

theorem Edits.cons (edits : Edits n a b) (x : α) : Edits n (x :: a) (x :: b) :=
  edits.map fun _ _ edit => edit.cons x

theorem Edits.trans (first : Edits m a b) (second : Edits n b c) : Edits (m + n) a c := by
  induction first with
  | refl a => rwa [Nat.zero_add]
  | step edit _ ih =>
    rw [Nat.add_right_comm]
    exact .step edit (ih second)

theorem Edits.symm (edits : Edits n a b) : Edits n b a := by
  induction edits with
  | refl a => exact .refl a
  | step edit _ ih => exact ih.trans (.step edit.symm (.refl _))

theorem edits_zero_iff : Edits 0 a b ↔ a = b := by
  constructor
  · intro edits
    cases edits
    rfl
  · rintro rfl
    exact .refl a

theorem edits_nil (b : List α) : Edits b.length [] b := by
  induction b with
  | nil => exact .refl []
  | cons y b ih => exact .step (.insert [] [] y) (ih.cons y)

variable [DecidableEq α]

def distance : List α → List α → Nat
  | [], b => b.length
  | a, [] => a.length
  | x :: a, y :: b =>
    min (distance a (y :: b) + 1) (min (distance (x :: a) b + 1) (distance a b + if x = y then 0 else 1))
  termination_by a b => a.length + b.length

@[simp] theorem distance_nil_left (b : List α) : distance [] b = b.length := by rw [distance]

@[simp] theorem distance_nil_right (a : List α) : distance a [] = a.length := by cases a <;> simp [distance]

theorem distance_cons (x y : α) (a b : List α) : distance (x :: a) (y :: b) =
    min (distance a (y :: b) + 1) (min (distance (x :: a) b + 1) (distance a b + if x = y then 0 else 1)) := by
  rw [distance]

theorem distance_cons_left_le (x : α) (a c : List α) : distance (x :: a) c ≤ distance a c + 1 := by
  cases c with
  | nil => simp
  | cons y c =>
    rw [distance_cons]
    omega

theorem distance_cons_right_le (a : List α) (y : α) (c : List α) : distance a (y :: c) ≤ distance a c + 1 := by
  cases a with
  | nil => simp
  | cons x a =>
    rw [distance_cons]
    omega

theorem distance_le_cons (x : α) (a c : List α) : distance a c ≤ distance (x :: a) c + 1 := by
  induction c with
  | nil =>
    simp
    omega
  | cons y c ih =>
    have right := distance_cons_right_le a y c
    rw [distance_cons]
    omega

theorem distance_substitute_le (x y : α) (a c : List α) : distance (x :: a) c ≤ distance (y :: a) c + 1 := by
  induction c with
  | nil => simp
  | cons z c ih =>
    rw [distance_cons, distance_cons]
    split <;> omega

theorem distance_context_le (x : α) (close : ∀ c, distance a c ≤ distance b c + 1) (c : List α) :
    distance (x :: a) c ≤ distance (x :: b) c + 1 := by
  induction c with
  | nil => simpa using close []
  | cons y c ih =>
    have here := close (y :: c)
    have rest := close c
    rw [distance_cons, distance_cons]
    omega

theorem distance_edit_le (edit : Edit a b) (c : List α) : distance a c ≤ distance b c + 1 := by
  have context {a b : List α} (close : ∀ c, distance a c ≤ distance b c + 1) (before : List α) :
      ∀ c, distance (before ++ a) c ≤ distance (before ++ b) c + 1 := by
    induction before with
    | nil => exact close
    | cons x before ih => exact distance_context_le x ih
  cases edit with
  | insert before after x => exact context (distance_le_cons x after) before c
  | delete before after x => exact context (distance_cons_left_le x after) before c
  | substitute before after x y => exact context (distance_substitute_le x y after) before c

theorem distance_self (a : List α) : distance a a = 0 := by
  induction a with
  | nil => simp
  | cons x a ih => simp [distance_cons, ih]

theorem distance_le (edits : Edits n a b) : distance a b ≤ n := by
  induction edits with
  | refl a => exact Nat.le_of_eq (distance_self a)
  | step edit _ ih => exact Nat.le_trans (distance_edit_le edit _) (Nat.succ_le_succ ih)

theorem edits_distance (a b : List α) : Edits (distance a b) a b := by
  fun_induction distance a b with
  | case1 b => exact edits_nil b
  | case2 a => exact (edits_nil a).symm
  | case3 x a y b deleted inserted kept =>
    have delete : Edits (distance a (y :: b) + 1) (x :: a) (y :: b) := .step (.delete [] a x) deleted
    have insert : Edits (distance (x :: a) b + 1) (x :: a) (y :: b) := .step (.insert [] (x :: a) y) (inserted.cons y)
    have keep : Edits (distance a b + if x = y then 0 else 1) (x :: a) (y :: b) := by
      split
      · next same => exact same ▸ kept.cons x
      · exact .step (.substitute [] a x y) (kept.cons y)
    exact min_rec' (Edits · _ _) delete (min_rec' (Edits · _ _) insert keep)

theorem distance_least (a b : List α) : IsLeast {n | Edits n a b} (distance a b) :=
  ⟨edits_distance a b, fun _ edits => distance_le edits⟩

end Mcp.Lib.Editing
