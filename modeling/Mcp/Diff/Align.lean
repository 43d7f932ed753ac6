import Mcp.Diff.Compare
import Mcp.Spy.Trace

namespace Mcp.Diff
open Lib Entries
open Spy (Distinct DistinctElements DistinctEntries)
open Trace (MCPRecord)

structure Flags where
  ignoreTimestamps : Bool := true
  ignoreIDs : Bool := false
  semanticCompare : Bool := false
  ignoreOrder : Bool := false

mutual

-- A slice in a slice is kept as it is, so that `normalizeItems` only looks for maps.
def normalizeValue (ignoreIDs : Bool) : Any → Any
  | .object entries => .object (normalizeJSON ignoreIDs entries)
  | .slice items => .slice (normalizeItems ignoreIDs items)
  | .nil => .nil
  | .bool b => .bool b
  | .float64 q => .float64 q
  | .string s => .string s

def normalizeJSON (ignoreIDs : Bool) : List (String × Any) → List (String × Any)
  | [] => []
  | (k, v) :: rest =>
    if ignoreIDs && k == "id" then normalizeJSON ignoreIDs rest
    else (k, normalizeValue ignoreIDs v) :: normalizeJSON ignoreIDs rest

def normalizeItems (ignoreIDs : Bool) : List Any → List Any
  | [] => []
  | item :: rest => (match item with
      | .object entries => .object (normalizeJSON ignoreIDs entries)
      | other => other) :: normalizeItems ignoreIDs rest

end

def compareRecords (flags : Flags) (a b : MCPRecord AnyMap) : Bool :=
  if a.direction ≠ b.direction then false
  else if !flags.ignoreTimestamps && a.timestamp != b.timestamp then false
  else if !flags.semanticCompare then a.rawContent == b.rawContent
  else compareJSON flags.ignoreOrder (normalizeJSON flags.ignoreIDs a.json.entries)
    (normalizeJSON flags.ignoreIDs b.json.entries)

inductive LineType where
  | none
  | same
  | removed
  | added
  deriving DecidableEq

-- A position is -1 where the entry has no record of that file.
structure DiffEntry where
  pos1 : Int
  pos2 : Int
  type1 : LineType
  type2 : LineType
  deriving DecidableEq

section Loop

variable {α : Type*} (compare : α → α → Bool) (records1 records2 : List α)

def findAhead (records : List α) (accepts : α → Bool) (i : Nat) : Option Nat :=
  (List.range' (i + 1) (min (i + 10) records.length - (i + 1))).find? fun k => (records[k]?).any accepts

def additions (j k : Nat) : List DiffEntry := (List.range' j (k - j)).map fun (l : Nat) => ⟨-1, l, .none, .added⟩

def deletions (i k : Nat) : List DiffEntry := (List.range' i (k - i)).map fun (l : Nat) => ⟨l, -1, .removed, .none⟩

def alignOnce (i j : Nat) : Option (List DiffEntry × Nat × Nat) :=
  match records1[i]?, records2[j]? with
  | some a, some b =>
    if compare a b then some ([⟨i, j, .same, .same⟩], i + 1, j + 1)
    else match findAhead records2 (compare a ·) j with
      | some k => some (additions j k, i, k)
      | none => match findAhead records1 (compare · b) i with
        | some k => some (deletions i k, k, j)
        | none => some ([⟨i, j, .removed, .added⟩], i + 1, j + 1)
  | some _, none => some ([⟨i, -1, .removed, .none⟩], i + 1, j)
  | none, some _ => some ([⟨-1, j, .none, .added⟩], i, j + 1)
  | none, none => none

end Loop

def positions (pos : DiffEntry → Int) (diffs : List DiffEntry) : List Int := (diffs.map pos).filter (· ≠ -1)

@[simp] theorem positions_nil (pos : DiffEntry → Int) : positions pos [] = [] := rfl

@[simp] theorem positions_append (pos : DiffEntry → Int) (diffs diffs' : List DiffEntry) :
    positions pos (diffs ++ diffs') = positions pos diffs ++ positions pos diffs' := by
  simp [positions]

def span (i k : Nat) : List Int := (List.range' i (k - i)).map Int.ofNat

theorem span_append {i k l : Nat} (first : i ≤ k) (second : k ≤ l) : span i k ++ span k l = span i l := by
  have start : i + 1 * (k - i) = k := by omega
  have length : k - i + (l - k) = l - i := by omega
  have joined := @List.range'_append i (k - i) (l - k) 1
  rw [start, length] at joined
  rw [span, span, span, ← List.map_append, joined]

section

variable {α : Type*} {compare : α → α → Bool} {records1 records2 : List α} {i j i' j' : Nat} {diffs : List DiffEntry}

def Justified (compare : α → α → Bool) (records1 records2 : List α) (entry : DiffEntry) : Prop :=
  entry.type1 = .same → entry.type2 = .same →
    ∃ (i j : Nat) (a b : α), entry.pos1 = i ∧ entry.pos2 = j ∧ records1[i]? = some a ∧ records2[j]? = some b ∧
      compare a b = true

structure Round (compare : α → α → Bool) (records1 records2 : List α) (i j i' j' : Nat) (diffs : List DiffEntry) :
    Prop where
  left : i ≤ i'
  right : j ≤ j'
  moves : i + j < i' + j'
  inside1 : i' ≤ records1.length
  inside2 : j' ≤ records2.length
  positions1 : positions DiffEntry.pos1 diffs = span i i'
  positions2 : positions DiffEntry.pos2 diffs = span j j'
  justified : ∀ entry ∈ diffs, Justified compare records1 records2 entry

@[simp] theorem span_self (i : Nat) : span i i = [] := by simp [span]

@[simp] theorem span_succ (i : Nat) : span i (i + 1) = [(i : Int)] := by simp [span]

theorem positions_additions : positions DiffEntry.pos1 (additions i j) = [] ∧
      positions DiffEntry.pos2 (additions i j) = span i j := by
  constructor
  · simp [positions, additions, Function.comp_def]
  · simp only [positions, additions, span, List.map_map]
    refine List.filter_eq_self.mpr fun p member => ?_
    obtain ⟨l, -, rfl⟩ := List.mem_map.mp member
    exact decide_eq_true (by simp)

theorem positions_deletions : positions DiffEntry.pos1 (deletions i j) = span i j ∧
      positions DiffEntry.pos2 (deletions i j) = [] := by
  constructor
  · simp only [positions, deletions, span, List.map_map]
    refine List.filter_eq_self.mpr fun p member => ?_
    obtain ⟨l, -, rfl⟩ := List.mem_map.mp member
    exact decide_eq_true (by simp)
  · simp [positions, deletions, Function.comp_def]

variable {records : List α}

theorem findAhead_bounds {accepts : α → Bool} {k : Nat} (found : findAhead records accepts i = some k) :
    i < k ∧ k < records.length := by
  have member := List.mem_of_find?_eq_some found
  simp only [List.mem_range'_1] at member
  omega

theorem unmarked_additions : ∀ entry ∈ additions i j, Justified compare records1 records2 entry := by
  intro entry member same
  obtain ⟨l, -, rfl⟩ := List.mem_map.mp member
  cases same

theorem unmarked_deletions : ∀ entry ∈ deletions i j, Justified compare records1 records2 entry := by
  intro entry member same
  obtain ⟨l, -, rfl⟩ := List.mem_map.mp member
  cases same

theorem round_of_alignOnce (inside1 : i ≤ records1.length) (inside2 : j ≤ records2.length)
    (once : alignOnce compare records1 records2 i j = some (diffs, i', j')) :
    Round compare records1 records2 i j i' j' diffs := by
  unfold alignOnce at once
  split at once
  · rename_i a b first second
    have bound1 := (List.getElem?_eq_some_iff.mp first).1
    have bound2 := (List.getElem?_eq_some_iff.mp second).1
    split_ifs at once with equal
    · cases once
      refine ⟨by omega, by omega, by omega, bound1, bound2, by simp [positions], by simp [positions], ?_⟩
      simp only [List.forall_mem_singleton]
      exact fun _ _ => ⟨i, j, a, b, rfl, rfl, first, second, equal⟩
    · split at once
      · rename_i k found
        obtain ⟨later, within⟩ := findAhead_bounds found
        cases once
        refine ⟨le_rfl, by omega, by omega, inside1, by omega, ?_, positions_additions.2, unmarked_additions⟩
        rw [positions_additions.1, span_self]
      · split at once
        · rename_i k found
          obtain ⟨later, within⟩ := findAhead_bounds found
          cases once
          refine ⟨by omega, le_rfl, by omega, by omega, inside2, positions_deletions.1, ?_, unmarked_deletions⟩
          rw [positions_deletions.2, span_self]
        · cases once
          refine ⟨by omega, by omega, by omega, bound1, bound2, by simp [positions], by simp [positions], ?_⟩
          simp [Justified]
  · rename_i first _
    have bound := (List.getElem?_eq_some_iff.mp first).1
    cases once
    exact ⟨by omega, le_rfl, by omega, bound, inside2, by simp [positions], by simp [positions], by simp [Justified]⟩
  · rename_i _ second
    have bound := (List.getElem?_eq_some_iff.mp second).1
    cases once
    exact ⟨le_rfl, by omega, by omega, inside1, bound, by simp [positions], by simp [positions], by simp [Justified]⟩
  · cases once

theorem ends_of_alignOnce (inside1 : i ≤ records1.length) (inside2 : j ≤ records2.length)
    (ended : alignOnce compare records1 records2 i j = none) : i = records1.length ∧ j = records2.length := by
  unfold alignOnce at ended
  split at ended
  · split_ifs at ended
    split at ended
    · cases ended
    · split at ended <;> cases ended
  · cases ended
  · cases ended
  · rename_i first second
    rw [List.getElem?_eq_none_iff] at first second
    exact ⟨le_antisymm inside1 first, le_antisymm inside2 second⟩

theorem alignOnce_eq_same {a : α} (here : records[i]? = some a) (accepts : compare a a = true) :
    alignOnce compare records records i i = some ([⟨i, i, .same, .same⟩], i + 1, i + 1) := by
  simp [alignOnce, here, accepts]

end

structure Cursor {α : Type*} (records1 records2 : List α) where
  i : Nat
  j : Nat
  inside1 : i ≤ records1.length
  inside2 : j ≤ records2.length

section

variable {α : Type*} {compare : α → α → Bool} {records1 records2 : List α}

def alignFrom (compare : α → α → Bool) (records1 records2 : List α) (cursor : Cursor records1 records2) :
    List DiffEntry :=
  match once : alignOnce compare records1 records2 cursor.i cursor.j with
  | none => []
  | some (diffs, i', j') =>
    have round := round_of_alignOnce cursor.inside1 cursor.inside2 once
    diffs ++ alignFrom compare records1 records2 ⟨i', j', round.inside1, round.inside2⟩
termination_by (records1.length - cursor.i) + (records2.length - cursor.j)
decreasing_by
  obtain ⟨left, right, moves, inside1, inside2, -⟩ := round
  omega

def align (compare : α → α → Bool) (records1 records2 : List α) : List DiffEntry :=
  alignFrom compare records1 records2 ⟨0, 0, Nat.zero_le _, Nat.zero_le _⟩

variable (compare) in
theorem round_of_alignFrom (cursor : Cursor records1 records2) :
    positions DiffEntry.pos1 (alignFrom compare records1 records2 cursor) = span cursor.i records1.length ∧
      positions DiffEntry.pos2 (alignFrom compare records1 records2 cursor) = span cursor.j records2.length ∧
      ∀ entry ∈ alignFrom compare records1 records2 cursor, Justified compare records1 records2 entry := by
  fun_induction alignFrom compare records1 records2 cursor with
  | case1 cursor ended =>
    obtain ⟨end1, end2⟩ := ends_of_alignOnce cursor.inside1 cursor.inside2 ended
    rw [end1, end2]
    simp
  | case2 cursor diffs i' j' once round ih =>
    obtain ⟨rest1, rest2, justified⟩ := ih
    refine ⟨?_, ?_, ?_⟩
    · rw [positions_append, round.positions1, rest1, span_append round.left round.inside1]
    · rw [positions_append, round.positions2, rest2, span_append round.right round.inside2]
    · exact List.forall_mem_append.mpr ⟨round.justified, justified⟩

theorem alignFrom_self {records : List α} (accepts : ∀ a ∈ records, compare a a = true)
    (cursor : Cursor records records) (level : cursor.i = cursor.j) :
    ∀ entry ∈ alignFrom compare records records cursor, entry.type1 = .same ∧ entry.type2 = .same := by
  fun_induction alignFrom compare records records cursor with
  | case1 => simp
  | case2 cursor diffs i' j' once round ih =>
    cases here : records[cursor.i]? with
    | none => simp [alignOnce, ← level, here] at once
    | some a =>
      rw [← level, alignOnce_eq_same here (accepts a (List.mem_of_getElem? here))] at once
      cases once
      simpa using ih rfl

end

theorem keys_normalizeJSON (ignoreIDs : Bool) (entries : List (String × Any)) :
    (keys (normalizeJSON ignoreIDs entries)).Sublist (keys entries) := by
  induction entries with
  | nil => exact .slnil
  | cons entry rest ih =>
    obtain ⟨k, v⟩ := entry
    unfold normalizeJSON
    split_ifs
    · exact ih.cons k
    · exact ih.cons_cons k

mutual

theorem distinct_normalizeValue (ignoreIDs : Bool) : (v : Any) → Distinct v → Distinct (normalizeValue ignoreIDs v)
  | .nil, _ | .bool _, _ | .float64 _, _ | .string _, _ => trivial
  | .slice items, distinct => distinct_normalizeItems ignoreIDs items distinct
  | .object entries, distinct =>
    ⟨distinct.1.sublist (keys_normalizeJSON ignoreIDs entries), distinct_normalizeJSON ignoreIDs entries distinct.2⟩

theorem distinct_normalizeJSON (ignoreIDs : Bool) : (entries : List (String × Any)) → DistinctEntries entries →
    DistinctEntries (normalizeJSON ignoreIDs entries)
  | [], _ => trivial
  | (k, v) :: rest, distinct => by
      unfold normalizeJSON
      split_ifs
      · exact distinct_normalizeJSON ignoreIDs rest distinct.2
      · exact ⟨distinct_normalizeValue ignoreIDs v distinct.1, distinct_normalizeJSON ignoreIDs rest distinct.2⟩

theorem distinct_normalizeItems (ignoreIDs : Bool) : (items : List Any) → DistinctElements items →
    DistinctElements (normalizeItems ignoreIDs items)
  | [], _ => trivial
  | .object entries :: rest, distinct =>
    ⟨⟨distinct.1.1.sublist (keys_normalizeJSON ignoreIDs entries),
      distinct_normalizeJSON ignoreIDs entries distinct.1.2⟩, distinct_normalizeItems ignoreIDs rest distinct.2⟩
  | .nil :: rest, distinct | .bool _ :: rest, distinct | .float64 _ :: rest, distinct | .string _ :: rest, distinct
  | .slice _ :: rest, distinct => ⟨distinct.1, distinct_normalizeItems ignoreIDs rest distinct.2⟩

end

theorem compareRecords_self (flags : Flags) (a : MCPRecord AnyMap) : compareRecords flags a a = true := by
  obtain ⟨members, decoded⟩ := a.json.decoded
  have distinct : Distinct (.object a.json.entries) := by
    have whole := Spy.distinct_decode (.object members)
    rw [Json.decode, decoded] at whole
    exact whole
  have normalized := distinct_normalizeValue flags.ignoreIDs _ distinct
  have equal : compareJSON flags.ignoreOrder _ _ = true := deepEqual_self normalized
  simp [compareRecords, equal]

def diffRecords (flags : Flags) (records1 records2 : List (MCPRecord AnyMap)) : List DiffEntry :=
  align (compareRecords flags) records1 records2

theorem diffRecords_edit_script (flags : Flags) (records1 records2 : List (MCPRecord AnyMap)) :
    positions DiffEntry.pos1 (diffRecords flags records1 records2) = (List.range records1.length).map Int.ofNat ∧
      positions DiffEntry.pos2 (diffRecords flags records1 records2) = (List.range records2.length).map Int.ofNat ∧
      (∀ entry ∈ diffRecords flags records1 records2, entry.type1 = .same → entry.type2 = .same →
        ∃ (i j : Nat) (a b : MCPRecord AnyMap), entry.pos1 = i ∧ entry.pos2 = j ∧ records1[i]? = some a ∧
          records2[j]? = some b ∧ compareRecords flags a b = true) ∧
      ∀ entry ∈ diffRecords flags records1 records1, entry.type1 = .same ∧ entry.type2 = .same := by
  have whole (n : Nat) : span 0 n = (List.range n).map Int.ofNat := by rw [span, Nat.sub_zero, List.range_eq_range']
  obtain ⟨positions1, positions2, justified⟩ := round_of_alignFrom (compareRecords flags)
    (⟨0, 0, Nat.zero_le _, Nat.zero_le _⟩ : Cursor records1 records2)
  rw [← whole, ← whole]
  exact ⟨positions1, positions2, justified, alignFrom_self (fun a _ => compareRecords_self flags a) _ rfl⟩

end Mcp.Diff
