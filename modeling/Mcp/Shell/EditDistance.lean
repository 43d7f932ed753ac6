import Mcp.Lib.Bytes
import Mcp.Lib.Editing

namespace Mcp.Shell
open Lib Bytes Editing

def min3 (a b c : Nat) : Nat :=
  let a := if a > b then b else a
  if a > c then c else a

-- `left` is the cell before; the row before starts with the cell above it.
def fillRow (x : UInt8) : Nat → Bytes → List Nat → List Nat
  | left, y :: b, diagonal :: above :: prev =>
    let cell := min3 (above + 1) (left + 1) (diagonal + if x = y then 0 else 1)
    cell :: fillRow x cell b (above :: prev)
  | _, _, _ => []

def fillRows (b : Bytes) : Nat → Bytes → List Nat → List Nat
  | _, [], prev => prev
  | i, x :: a, prev => fillRows b (i + 1) a (i :: fillRow x i b prev)

def editDistance (a b : Bytes) : Nat :=
  if a = b then 0
  else if a = [] then b.length
  else if b = [] then a.length
  else (fillRows b 1 a (List.range (b.length + 1)))[b.length]?.getD 0

def row (a : Bytes) : Bytes → Bytes → List Nat
  | read, [] => [distance a read]
  | read, y :: b => distance a read :: row a (y :: read) b

theorem row_eq_cons (a read b : Bytes) : row a read b = distance a read :: (row a read b).tail := by
  cases b <;> rfl

theorem row_nil (read b : Bytes) : row [] read b = List.range' read.length (b.length + 1) := by
  induction b generalizing read with
  | nil => simp [row]
  | cons y b ih => simp [row, ih, List.range'_succ]

theorem getElem?_row (a read b : Bytes) : (row a read b)[b.length]? = some (distance a (b.reverse ++ read)) := by
  induction b generalizing read with
  | nil => rfl
  | cons y b ih => simp [row, ih]

theorem fillRow_row (x : UInt8) (a read b : Bytes) :
    fillRow x (distance (x :: a) read) b (row a read b) = (row (x :: a) read b).tail := by
  induction b generalizing read with
  | nil => rfl
  | cons y b ih =>
    have cell : min3 (distance a (y :: read) + 1) (distance (x :: a) read + 1)
        (distance a read + if x = y then 0 else 1) = distance (x :: a) (y :: read) := by
      rw [distance_cons, min3]
      split_ifs <;> omega
    rw [row, row_eq_cons a (y :: read), fillRow, cell, ← row_eq_cons, ih, row, List.tail_cons, ← row_eq_cons]

theorem fillRows_row (b a r : Bytes) : fillRows b (r.length + 1) a (row r [] b) = row (a.reverse ++ r) [] b := by
  induction a generalizing r with
  | nil => rfl
  | cons x a ih =>
    have first : distance (x :: r) [] = r.length + 1 := distance_nil_right (x :: r)
    have filled := fillRow_row x r [] b
    rw [first] at filled
    have next : (r.length + 1) :: (row (x :: r) [] b).tail = row (x :: r) [] b := by
      rw [row_eq_cons (x :: r) [] b, first, List.tail_cons]
    rw [fillRows, filled, next, List.reverse_cons, List.append_assoc]
    exact ih (x :: r)

theorem editDistance_eq (a b : Bytes) : editDistance a b = distance a.reverse b.reverse := by
  unfold editDistance
  split_ifs with same empty empty'
  · rw [same, distance_self]
  · simp [empty]
  · simp [empty']
  · have start : List.range (b.length + 1) = row [] [] b := by
      rw [row_nil, List.length_nil, List.range_eq_range']
    have filled := fillRows_row b a []
    rw [List.append_nil, List.length_nil, Nat.zero_add, ← start] at filled
    rw [filled, getElem?_row, List.append_nil, Option.getD_some]

theorem edits_reverse_iff {n : Nat} {a b : Bytes} : Edits n a.reverse b.reverse ↔ Edits n a b := by
  refine ⟨fun edits => ?_, fun edits => edits.map fun _ _ edit => edit.reverse⟩
  simpa using edits.map fun _ _ edit => edit.reverse

theorem isLeast_editDistance (a b : Bytes) : IsLeast {n | Edits n a b} (editDistance a b) := by
  have least := distance_least a.reverse b.reverse
  simp only [edits_reverse_iff] at least
  rwa [editDistance_eq]

theorem edits_editDistance (a b : Bytes) : Edits (editDistance a b) a b := (isLeast_editDistance a b).1

theorem editDistance_le {n : Nat} {a b : Bytes} (edits : Edits n a b) : editDistance a b ≤ n :=
  (isLeast_editDistance a b).2 edits

/-- The distance is the least number of single-byte edits, and so a metric. -/
theorem editDistance_minimal (a b c : Bytes) :
    IsLeast {n | Edits n a b} (editDistance a b) ∧ (editDistance a b = 0 ↔ a = b) ∧
    editDistance a b = editDistance b a ∧ editDistance a c ≤ editDistance a b + editDistance b c := by
  refine ⟨isLeast_editDistance a b, ⟨fun zero => ?_, fun same => ?_⟩, Nat.le_antisymm ?_ ?_, ?_⟩
  · exact edits_zero_iff.mp (zero ▸ edits_editDistance a b)
  · exact Nat.le_zero.mp (editDistance_le (edits_zero_iff.mpr same))
  · exact editDistance_le (edits_editDistance b a).symm
  · exact editDistance_le (edits_editDistance a b).symm
  · exact editDistance_le ((edits_editDistance a b).trans (edits_editDistance b c))

end Mcp.Shell
