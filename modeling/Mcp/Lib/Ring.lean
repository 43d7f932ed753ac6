import Mathlib.Data.List.Basic
import Mathlib.Data.Nat.ModEq

/-! # Ring buffers -/

namespace Mcp.Lib.Ring

variable {α : Type*} {buf items : List α} {start count cap : Nat} {x : α}

structure Holds (buf : List α) (start cap : Nat) (items : List α) : Prop where
  size : buf.length = cap
  inside : start < cap
  fits : items.length ≤ cap
  cells : ∀ i < items.length, buf[(start + i) % cap]? = items[i]?

theorem offset_ne {i j : Nat} (start : Nat) (small : i < cap) (small' : j < cap) (different : i ≠ j) :
    (start + i) % cap ≠ (start + j) % cap := by
  intro same
  exact different ((Nat.ModEq.add_left_cancel' start same).eq_of_lt_of_lt small small')

theorem holds_nil (size : buf.length = cap) (positive : 0 < cap) : Holds buf 0 cap [] where
  size := size
  inside := positive
  fits := Nat.zero_le _
  cells i short := by cases short

theorem mapM_range_eq {f : Nat → Option α} (n : Nat) (short : n ≤ items.length) (found : ∀ i < n, f i = items[i]?) :
    (List.range n).mapM f = some (items.take n) := by
  induction n with
  | zero => simp
  | succ n ih =>
    have last : f n = some items[n] := (found n (Nat.lt_succ_self n)).trans (List.getElem?_eq_getElem short)
    rw [List.range_succ, List.mapM_append, ih (Nat.le_of_lt short) fun i less => found i (Nat.lt_succ_of_lt less)]
    rw [List.take_succ_eq_append_getElem short]
    simp only [List.mapM_cons, List.mapM_nil, last]
    rfl

theorem Holds.read (holds : Holds buf start cap items) :
    (List.range items.length).mapM (fun i => buf[(start + i) % cap]?) = some items := by
  rw [mapM_range_eq items.length le_rfl holds.cells, List.take_length]

theorem Holds.fill (holds : Holds buf start cap items) (room : items.length < cap) (x : α) :
    Holds (buf.set ((start + items.length) % cap) x) start cap (items ++ [x]) where
  size := by rw [List.length_set, holds.size]
  inside := holds.inside
  fits := by simpa using Nat.succ_le_of_lt room
  cells i short := by
    have inside : (start + items.length) % cap < buf.length := by
      rw [holds.size]
      exact Nat.mod_lt _ (Nat.zero_lt_of_lt holds.inside)
    rw [List.length_append, List.length_singleton] at short
    rcases Nat.lt_or_eq_of_le (Nat.le_of_lt_succ short) with old | rfl
    · have other := offset_ne start (Nat.lt_trans old room) room (Nat.ne_of_lt old)
      rw [List.getElem?_set_ne other.symm, List.getElem?_append_left old, holds.cells i old]
    · rw [List.getElem?_set_self inside, List.getElem?_concat_length]

theorem Holds.overwrite (holds : Holds buf start cap items) (full : items.length = cap) (x : α) :
    Holds (buf.set start x) ((start + 1) % cap) cap (items.tail ++ [x]) where
  size := by rw [List.length_set, holds.size]
  inside := Nat.mod_lt _ (Nat.zero_lt_of_lt holds.inside)
  fits := by
    have positive := Nat.zero_lt_of_lt holds.inside
    simp only [List.length_append, List.length_tail, List.length_singleton]
    omega
  cells i short := by
    have positive := Nat.zero_lt_of_lt holds.inside
    have length : items.tail.length = cap - 1 := by rw [List.length_tail, full]
    rw [List.length_append, List.length_singleton, length] at short
    rw [Nat.mod_add_mod, Nat.add_assoc, Nat.add_comm 1 i]
    have small : i < cap := by omega
    rcases Nat.lt_or_ge i (cap - 1) with old | last
    · have slot : start = (start + 0) % cap := (Nat.mod_eq_of_lt holds.inside).symm
      have other : start ≠ (start + (i + 1)) % cap := by
        rw [slot, Nat.mod_add_mod]
        exact offset_ne (start + 0) positive (by omega) (by omega)
      rw [List.getElem?_set_ne other, holds.cells (i + 1) (by omega), List.getElem?_append_left (by omega),
        List.getElem?_tail]
    · have end_ : i + 1 = cap := by omega
      have wrapped : (start + (i + 1)) % cap = start := by
        rw [end_, Nat.add_mod_right, Nat.mod_eq_of_lt holds.inside]
      have position : i = items.tail.length := by omega
      rw [wrapped, List.getElem?_set_self (by rw [holds.size]; exact holds.inside), position,
        List.getElem?_concat_length]

end Mcp.Lib.Ring
