import Mathlib.Data.List.AList
import Mathlib.Algebra.Order.BigOperators.Group.List
import Mathlib.Algebra.Order.Group.Int
import Mathlib.Tactic.Abel

/-! # Tables with weights -/

namespace Mcp.Lib

abbrev Table (κ ν : Type*) := AList fun _ : κ => ν

namespace Table

variable {κ ν K : Type*} [AddCommGroup K]

def keep (p : ν → Bool) (t : Table κ ν) : Table κ ν :=
  ⟨t.entries.filter fun entry => p entry.2, t.nodupKeys.sublist List.filter_sublist⟩

def total (weight : ν → K) (t : Table κ ν) : K := (t.entries.map fun entry => weight entry.2).sum

theorem total_keep_add (weight : ν → K) (p : ν → Bool) (t : Table κ ν) :
    total weight (keep p t) + total weight (keep (fun value => !p value) t) = total weight t := by
  simp only [total, keep]
  induction t.entries with
  | nil => simp
  | cons entry entries ih =>
    cases kept : p entry.2 with
    | true => simp [kept, ← ih, add_assoc]
    | false => simp [kept, ← ih, add_left_comm]

theorem total_nonneg {weight : ν → Int} {t : Table κ ν} (nonneg : ∀ entry ∈ t.entries, 0 ≤ weight entry.2) :
    0 ≤ total weight t := by
  apply List.sum_nonneg
  intro w member
  obtain ⟨entry, stored, rfl⟩ := List.mem_map.mp member
  exact nonneg entry stored

variable [DecidableEq κ]

section Pairs
variable {ω : Type*} (f : ν → ω)

def pairs (t : Table κ ν) : List (κ × ω) := t.entries.map fun entry => (entry.1, f entry.2)

theorem lookup_pairs (key : κ) (t : Table κ ν) : (pairs f t).lookup key = (t.lookup key).map f := by
  rw [pairs, AList.lookup]
  induction t.entries with
  | nil => rfl
  | cons entry entries ih =>
    obtain ⟨other, value⟩ := entry
    by_cases same : key = other
    · subst same
      simp
    · rw [List.dlookup_cons_ne _ _ same, ← ih, List.map_cons, List.lookup_cons, beq_eq_false_iff_ne.mpr same]

theorem kerase_eq_filter (key : κ) {entries : List (Sigma fun _ : κ => ν)} (nodup : entries.NodupKeys) :
    List.kerase key entries = entries.filter fun entry => entry.1 ≠ key := by
  induction entries with
  | nil => rfl
  | cons entry entries ih =>
    obtain ⟨absent, nodup⟩ := List.nodupKeys_cons.mp nodup
    by_cases same : key = entry.1
    · have others : ∀ other ∈ entries, decide (other.1 ≠ key) = true := fun other member =>
        decide_eq_true fun equal => absent (same ▸ equal ▸ List.mem_keys_of_mem member)
      rw [List.kerase_cons_eq same, List.filter_cons_of_neg (by simp [same]), List.filter_eq_self.mpr others]
    · rw [List.kerase_cons_ne same, ih nodup, List.filter_cons_of_pos (by simpa using Ne.symm same)]

theorem pairs_erase (key : κ) (t : Table κ ν) :
    pairs f (t.erase key) = (pairs f t).filter fun pair => pair.1 ≠ key := by
  rw [pairs, pairs, List.filter_map]
  exact congrArg (List.map _) (kerase_eq_filter key t.nodupKeys)

theorem pairs_insert {key : κ} {t : Table κ ν} (absent : t.lookup key = none) (value : ν) :
    pairs f (t.insert key value) = (key, f value) :: pairs f t := by
  rw [pairs, AList.entries_insert_of_notMem (AList.lookup_eq_none.mp absent), List.map_cons, pairs]

theorem pairs_congr {f g : ν → ω} {t : Table κ ν} (same : ∀ key value, t.lookup key = some value → f value = g value) :
    pairs f t = pairs g t :=
  List.map_congr_left fun entry member => congrArg (entry.1, ·) (same entry.1 entry.2 (AList.mem_lookup_iff.mpr member))

end Pairs

def weightAt (weight : ν → K) (key : κ) (t : Table κ ν) : K := ((t.lookup key).map weight).getD 0

theorem total_erase (weight : ν → K) (key : κ) (t : Table κ ν) :
    total weight (t.erase key) = total weight t - weightAt weight key t := by
  by_cases stored : key ∈ t
  · obtain ⟨value, before, after, fresh, split, erased⟩ := List.exists_of_kerase stored
    have found : t.lookup key = some value :=
      AList.mem_lookup_iff.mpr (by rw [split]; simp)
    have rest : (t.erase key).entries = before ++ after := erased
    simp only [total, weightAt, found, rest, split, List.map_append, List.map_cons, List.sum_append, List.sum_cons,
      Option.map_some, Option.getD_some]
    abel
  · have missing : t.lookup key = none := AList.lookup_eq_none.mpr stored
    have same : (t.erase key).entries = t.entries := List.kerase_of_notMem_keys stored
    simp [total, weightAt, missing, same]

theorem total_insert (weight : ν → K) (key : κ) (value : ν) (t : Table κ ν) :
    total weight (t.insert key value) = weight value + total weight (t.erase key) := by
  simp only [total, AList.entries_insert, List.map_cons, List.sum_cons]
  rfl

theorem lookup_keep (p : ν → Bool) (key : κ) (t : Table κ ν) : (keep p t).lookup key = (t.lookup key).filter p := by
  apply Option.ext
  intro value
  rw [Option.filter_eq_some_iff, ← Option.mem_def, ← Option.mem_def, AList.mem_lookup_iff, AList.mem_lookup_iff,
    keep, List.mem_filter]

end Table

end Mcp.Lib
