import Mathlib.Data.List.Basic
import Mathlib.Order.Lattice
import Mathlib.Order.Nat

/-! # Logs with a registered signal -/

namespace Mcp.Lib
open Function

section Cursor

variable {α : Type*} {log read : List α} {start pos : Nat}

structure HasRead (log : List α) (start pos : Nat) (read : List α) : Prop where
  ordered : start ≤ pos
  inside : start < pos → pos ≤ log.length
  exact : read = (log.take pos).drop start

theorem hasRead_start (log : List α) (start : Nat) : HasRead log start start [] :=
  ⟨le_rfl, fun before => absurd before (lt_irrefl _), by simp⟩

theorem HasRead.append (sofar : HasRead log start pos read) (entry : α) : HasRead (log ++ [entry]) start pos read := by
  obtain ⟨ordered, inside, exact⟩ := sofar
  refine ⟨ordered, fun before => by simpa using Nat.le_succ_of_le (inside before), ?_⟩
  rcases ordered.eq_or_lt with rfl | before
  · simp [exact]
  · rw [List.take_append_of_le_length (inside before), exact]

theorem HasRead.catchUp (sofar : HasRead log start pos read) :
    HasRead log start (max pos log.length) (read ++ log.drop pos) := by
  obtain ⟨ordered, inside, exact⟩ := sofar
  rcases le_total pos log.length with before | beyond
  · rw [max_eq_right before]
    refine ⟨ordered.trans before, fun _ => le_rfl, ?_⟩
    have split : log.drop start = (log.take pos).drop start ++ log.drop pos := by
      have whole := congrArg (List.drop start) (List.take_append_drop pos log)
      rwa [List.drop_append_of_le_length (by simpa using ⟨ordered, ordered.trans before⟩), eq_comm]
        at whole
    rw [exact, List.take_length, split]
  · rw [max_eq_left beyond, List.drop_of_length_le beyond, List.append_nil]
    exact ⟨ordered, inside, exact⟩

theorem HasRead.next {entry : α} (sofar : HasRead log start pos read) (found : log[pos]? = some entry) :
    HasRead log start (pos + 1) (read ++ [entry]) := by
  obtain ⟨ordered, -, exact⟩ := sofar
  obtain ⟨inside, element⟩ := List.getElem?_eq_some_iff.mp found
  refine ⟨ordered.trans (Nat.le_succ pos), fun _ => inside, ?_⟩
  have bound : start ≤ (log.take pos).length := by
    rw [List.length_take]
    omega
  rw [List.take_add_one, found, Option.toList_some, List.drop_append_of_le_length bound, exact]

theorem HasRead.complete (sofar : HasRead log start pos read) (seen : log.length ≤ pos) : read = log.drop start := by
  rw [sofar.exact, List.take_of_length_le seen]

end Cursor

structure Board (ι α : Type*) where
  log : ι → List α
  registered : ι → Option Nat
  signalled : Nat → Bool

namespace Board

variable {ι α : Type*} (b : Board ι α)

def Watched (i : ι) (c n : Nat) : Prop :=
  b.registered i = some c ∧ ((b.log i).length ≤ n ∨ b.signalled c = true)

def take (c : Nat) : Board ι α :=
  { b with signalled := update b.signalled c false }

variable {b} {i j : ι} {c d n : Nat}

theorem Watched.seen (watched : b.Watched i c n) (silent : b.signalled c = false) : (b.log i).length ≤ n :=
  watched.2.resolve_right (by simp [silent])

theorem Watched.take_other (watched : b.Watched i c n) (other : d ≠ c) : (b.take d).Watched i c n :=
  ⟨watched.1, watched.2.imp_right fun full => (update_of_ne (Ne.symm other) _ _).trans full⟩

variable [DecidableEq ι] (b)

def publish (i : ι) (entry : α) : Board ι α where
  log := update b.log i (b.log i ++ [entry])
  registered := b.registered
  signalled c := b.signalled c || b.registered i == some c

def register (i : ι) (c : Nat) : Board ι α where
  log := b.log
  registered := update b.registered i (some c)
  signalled := update b.signalled c false

def delete (i : ι) : Board ι α :=
  { b with registered := update b.registered i none }

theorem watched_register (i : ι) (c : Nat) (seen : (b.log i).length ≤ n) : (b.register i c).Watched i c n :=
  ⟨update_self _ _ _, Or.inl seen⟩

variable {b}

theorem Watched.publish (watched : b.Watched i c n) (j : ι) (entry : α) : (b.publish j entry).Watched i c n := by
  obtain ⟨registered, seen⟩ := watched
  refine ⟨registered, ?_⟩
  by_cases same : j = i
  · subst same
    exact Or.inr (by simp [Board.publish, registered])
  · have frame : (b.publish j entry).log i = b.log i := update_of_ne (Ne.symm same) _ _
    rw [frame]
    exact seen.imp_right fun full => by simp [Board.publish, full]

theorem Watched.register_other (watched : b.Watched i c n) (other : j ≠ i) (fresh : d ≠ c) :
    (b.register j d).Watched i c n := by
  obtain ⟨registered, seen⟩ := watched
  refine ⟨?_, seen.imp_right ?_⟩
  · exact (update_of_ne (Ne.symm other) _ _).trans registered
  · exact fun full => (update_of_ne (Ne.symm fresh) _ _).trans full

theorem Watched.delete_other (watched : b.Watched i c n) (other : j ≠ i) : (b.delete j).Watched i c n :=
  ⟨(update_of_ne (Ne.symm other) _ _).trans watched.1, watched.2⟩

end Board

end Mcp.Lib
