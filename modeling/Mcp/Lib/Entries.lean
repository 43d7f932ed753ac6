import Mathlib.Data.List.Nodup
import Mathlib.Data.List.Pairwise
import Mathlib.Data.List.Perm.Subperm
import Mathlib.Order.Lattice

/-! # Maps as sorted entries -/

namespace Mcp.Lib.Entries

variable {κ ν : Type*} [LinearOrder κ]

def upsert (key : κ) (f : Option ν → ν) : List (κ × ν) → List (κ × ν)
  | [] => [(key, f none)]
  | (k, v) :: rest =>
    if key = k then (k, f (some v)) :: rest
    else if key < k then (key, f none) :: (k, v) :: rest
    else (k, v) :: upsert key f rest

def keys (entries : List (κ × ν)) : List κ := entries.map Prod.fst

def Sorted (entries : List (κ × ν)) : Prop := (keys entries).Pairwise (· < ·)

omit [LinearOrder κ] in
@[simp] theorem keys_cons (entry : κ × ν) (entries : List (κ × ν)) :
    keys (entry :: entries) = entry.1 :: keys entries :=
  rfl

theorem sorted_cons {entry : κ × ν} {entries : List (κ × ν)} :
    Sorted (entry :: entries) ↔ (∀ k ∈ keys entries, entry.1 < k) ∧ Sorted entries := List.pairwise_cons

variable {key k : κ} {f : Option ν → ν} {entries : List (κ × ν)}

theorem mem_keys_upsert : k ∈ keys (upsert key f entries) ↔ k = key ∨ k ∈ keys entries := by
  induction entries with
  | nil => simp [upsert, keys]
  | cons entry rest ih =>
    obtain ⟨k', v⟩ := entry
    unfold upsert
    split_ifs with same less
    · simp [same]
    · simp
    · rw [keys_cons, List.mem_cons, ih, keys_cons, List.mem_cons, or_left_comm]

theorem sorted_upsert (sorted : Sorted entries) : Sorted (upsert key f entries) := by
  induction entries with
  | nil => exact List.pairwise_singleton ..
  | cons entry rest ih =>
    obtain ⟨k', v⟩ := entry
    obtain ⟨above, rest_sorted⟩ := sorted_cons.mp sorted
    unfold upsert
    split_ifs with same less
    · exact sorted
    · refine sorted_cons.mpr ⟨?_, sorted⟩
      intro k' member
      rcases List.mem_cons.mp member with rfl | later
      · exact less
      · exact less.trans (above k' later)
    · refine sorted_cons.mpr ⟨?_, ih rest_sorted⟩
      intro k'' member
      rcases mem_keys_upsert.mp member with rfl | later
      · exact lt_of_le_of_ne (not_lt.mp less) (Ne.symm same)
      · exact above k'' later

variable [BEq κ] [LawfulBEq κ]

omit [LinearOrder κ] in
theorem lookup_isSome_iff : (entries.lookup k).isSome ↔ k ∈ keys entries := by
  induction entries with
  | nil => simp [keys]
  | cons entry rest ih =>
    by_cases same : k = entry.1
    · simp [same]
    · rw [List.lookup_cons, beq_eq_false_iff_ne.mpr same, keys_cons, List.mem_cons, or_iff_right same]
      exact ih

theorem lookup_upsert_self (sorted : Sorted entries) :
    (upsert key f entries).lookup key = some (f (entries.lookup key)) := by
  induction entries with
  | nil => simp [upsert]
  | cons entry rest ih =>
    obtain ⟨k', v⟩ := entry
    obtain ⟨above, rest_sorted⟩ := sorted_cons.mp sorted
    unfold upsert
    split_ifs with same less
    · simp [same]
    · have absent : ((k', v) :: rest).lookup key = none := by
        rw [← Option.not_isSome_iff_eq_none, lookup_isSome_iff]
        intro member
        rcases List.mem_cons.mp member with rfl | later
        · exact same rfl
        · exact absurd (above key later) (not_lt.mpr less.le)
      simp [absent]
    · rw [List.lookup_cons, List.lookup_cons, beq_eq_false_iff_ne.mpr same]
      exact ih rest_sorted

theorem lookup_upsert_of_ne (other : k ≠ key) : (upsert key f entries).lookup k = entries.lookup k := by
  induction entries with
  | nil => simp [upsert, List.lookup_cons, beq_eq_false_iff_ne.mpr other]
  | cons entry rest ih =>
    obtain ⟨k', v⟩ := entry
    unfold upsert
    split_ifs with same less
    · subst same
      simp [List.lookup_cons, beq_eq_false_iff_ne.mpr other]
    · simp [List.lookup_cons, beq_eq_false_iff_ne.mpr other]
    · simp only [List.lookup_cons, ih]

omit [LinearOrder κ] in
theorem lookup_of_mem_of_nodup (nodup : (keys entries).Nodup) {v : ν} (member : (k, v) ∈ entries) :
    entries.lookup k = some v := by
  induction entries with
  | nil => cases member
  | cons entry rest ih =>
    obtain ⟨absent, rest_nodup⟩ := List.nodup_cons.mp nodup
    rcases List.mem_cons.mp member with rfl | later
    · simp
    · have other : k ≠ entry.1 := fun same => absent (same ▸ List.mem_map_of_mem later)
      rw [List.lookup_cons, beq_eq_false_iff_ne.mpr other]
      exact ih rest_nodup later

omit [BEq κ] [LawfulBEq κ] in
theorem Sorted.nodup (sorted : Sorted entries) : (keys entries).Nodup := sorted.imp fun less => less.ne

variable {v : ν}

theorem lookup_of_mem (sorted : Sorted entries) (member : (k, v) ∈ entries) : entries.lookup k = some v :=
  lookup_of_mem_of_nodup sorted.nodup member

omit [LinearOrder κ] in
theorem mem_of_lookup {v : ν} (found : entries.lookup k = some v) : (k, v) ∈ entries := by
  obtain ⟨before, after, rfl, -⟩ := List.lookup_eq_some_iff.mp found
  simp

omit [LinearOrder κ] in
theorem lookup_eq_some_iff_of_nodup (nodup : (keys entries).Nodup) {v : ν} :
    entries.lookup k = some v ↔ (k, v) ∈ entries :=
  ⟨mem_of_lookup, lookup_of_mem_of_nodup nodup⟩

theorem sorted_ext {others : List (κ × ν)} (sorted : Sorted entries) (sorted' : Sorted others)
    (same : ∀ k, entries.lookup k = others.lookup k) : entries = others := by
  have members : ∀ entry, entry ∈ entries ↔ entry ∈ others := by
    rintro ⟨k, v⟩
    constructor
    · intro member
      exact mem_of_lookup ((same k).symm.trans (lookup_of_mem sorted member))
    · intro member
      exact mem_of_lookup ((same k).trans (lookup_of_mem sorted' member))
  have perm := (List.perm_ext_iff_of_nodup (List.Nodup.of_map _ sorted.nodup) (List.Nodup.of_map _ sorted'.nodup)).mpr
    members
  exact perm.eq_of_pairwise (fun a b _ _ less less' => absurd less (lt_asymm less'))
    (List.pairwise_map.mp sorted) (List.pairwise_map.mp sorted')

def insertAll (entries pairs : List (κ × ν)) : List (κ × ν) :=
  pairs.foldl (fun entries pair => upsert pair.1 (fun _ => pair.2) entries) entries

def ofList (pairs : List (κ × ν)) : List (κ × ν) := insertAll [] pairs

variable {pair : κ × ν} {pairs pairs' : List (κ × ν)}

section

omit [BEq κ] [LawfulBEq κ]

@[simp] theorem insertAll_cons :
    insertAll entries (pair :: pairs) = insertAll (upsert pair.1 (fun _ => pair.2) entries) pairs := rfl

theorem sorted_insertAll (sorted : Sorted entries) : Sorted (insertAll entries pairs) := by
  induction pairs generalizing entries with
  | nil => exact sorted
  | cons pair rest ih => exact ih (sorted_upsert sorted)

theorem mem_keys_insertAll : k ∈ keys (insertAll entries pairs) ↔ k ∈ keys entries ∨ k ∈ keys pairs := by
  induction pairs generalizing entries with
  | nil => simp [insertAll, keys]
  | cons pair rest ih => rw [insertAll_cons, ih, mem_keys_upsert, keys_cons, List.mem_cons, or_assoc, or_left_comm]

theorem sorted_ofList : Sorted (ofList pairs) := sorted_insertAll (show Sorted [] from List.Pairwise.nil)

theorem mem_keys_ofList : k ∈ keys (ofList pairs) ↔ k ∈ keys pairs := by
  rw [ofList, mem_keys_insertAll]
  exact or_iff_right List.not_mem_nil

theorem length_ofList_iff : (ofList pairs).length = pairs.length ↔ (keys pairs).Nodup := by
  have nodup : (keys (ofList pairs)).Nodup := sorted_ofList.nodup
  constructor
  · intro length
    have inside : keys (ofList pairs) ⊆ keys pairs := fun k member => mem_keys_ofList.mp member
    have perm := (List.Nodup.subperm nodup inside).perm_of_length_le (by simp [keys, length])
    exact perm.nodup_iff.mp nodup
  · intro nodup'
    have perm := (List.perm_ext_iff_of_nodup nodup nodup').mpr fun k => mem_keys_ofList
    simpa [keys] using perm.length_eq

end

theorem lookup_insertAll_of_not_mem (absent : k ∉ keys pairs) :
    (insertAll entries pairs).lookup k = entries.lookup k := by
  induction pairs generalizing entries with
  | nil => rfl
  | cons pair rest ih =>
    rw [keys_cons, List.mem_cons, not_or] at absent
    rw [insertAll_cons, ih absent.2, lookup_upsert_of_ne absent.1]

theorem lookup_insertAll_of_mem (sorted : Sorted entries) (nodup : (keys pairs).Nodup) (member : (k, v) ∈ pairs) :
    (insertAll entries pairs).lookup k = some v := by
  induction pairs generalizing entries with
  | nil => cases member
  | cons pair rest ih =>
    obtain ⟨absent, nodup⟩ := List.nodup_cons.mp nodup
    rw [insertAll_cons]
    rcases List.mem_cons.mp member with rfl | later
    · rw [lookup_insertAll_of_not_mem absent, lookup_upsert_self sorted]
    · exact ih (sorted_upsert sorted) nodup later

theorem lookup_ofList_of_mem (nodup : (keys pairs).Nodup) (member : (k, v) ∈ pairs) :
    (ofList pairs).lookup k = some v :=
  lookup_insertAll_of_mem (show Sorted [] from List.Pairwise.nil) nodup member

theorem ofList_perm (nodup : (keys pairs).Nodup) (perm : pairs.Perm pairs') : ofList pairs = ofList pairs' := by
  have nodup' : (keys pairs').Nodup := (perm.map Prod.fst).nodup_iff.mp nodup
  refine sorted_ext sorted_ofList sorted_ofList fun k => ?_
  by_cases member : k ∈ keys pairs
  · obtain ⟨⟨k, v⟩, place, rfl⟩ := List.mem_map.mp member
    rw [lookup_ofList_of_mem nodup place, lookup_ofList_of_mem nodup' (perm.mem_iff.mp place)]
  · have absent : k ∉ keys pairs' := fun place => member ((perm.map Prod.fst).mem_iff.mpr place)
    rw [ofList, ofList, lookup_insertAll_of_not_mem member, lookup_insertAll_of_not_mem absent]

section Put

variable {κ ν : Type*} [DecidableEq κ] {k key : κ} {v value : ν} {entries : List (κ × ν)}

def put (key : κ) (value : ν) : List (κ × ν) → List (κ × ν)
  | [] => [(key, value)]
  | (k, v) :: rest => if key = k then (key, value) :: rest else (k, v) :: put key value rest

theorem mem_put {entry : κ × ν} (member : entry ∈ put key value entries) : entry = (key, value) ∨ entry ∈ entries := by
  induction entries with
  | nil => exact .inl (List.mem_singleton.mp member)
  | cons first rest ih =>
    unfold put at member
    split_ifs at member with same
    · rcases List.mem_cons.mp member with rfl | later
      · exact .inl rfl
      · exact .inr (List.mem_cons_of_mem _ later)
    · rcases List.mem_cons.mp member with rfl | later
      · exact .inr List.mem_cons_self
      · exact (ih later).imp_right (List.mem_cons_of_mem _)

theorem mem_put_self : (key, value) ∈ put key value entries := by
  induction entries with
  | nil => exact List.mem_singleton.mpr rfl
  | cons first rest ih =>
    unfold put
    split_ifs
    · exact List.mem_cons_self
    · exact List.mem_cons_of_mem _ ih

theorem nodup_keys_put (nodup : (keys entries).Nodup) : (keys (put key value entries)).Nodup := by
  induction entries with
  | nil => exact List.nodup_singleton key
  | cons first rest ih =>
    obtain ⟨absent, rest_nodup⟩ := List.nodup_cons.mp nodup
    unfold put
    split_ifs with same
    · subst same
      exact nodup
    · refine List.nodup_cons.mpr ⟨fun member => ?_, ih rest_nodup⟩
      obtain ⟨entry, stored, equal⟩ := List.mem_map.mp member
      rcases mem_put stored with rfl | old
      · exact same equal
      · exact absent (List.mem_map.mpr ⟨entry, old, equal⟩)

variable [BEq κ] [LawfulBEq κ]

@[simp] theorem lookup_put_self : (put key value entries).lookup key = some value := by
  induction entries with
  | nil => simp [put]
  | cons first rest ih =>
    unfold put
    split_ifs with same
    · simp
    · rw [List.lookup_cons, beq_eq_false_iff_ne.mpr same]
      exact ih

theorem lookup_put_of_ne (other : k ≠ key) : (put key value entries).lookup k = entries.lookup k := by
  induction entries with
  | nil => simp [put, List.lookup_cons, beq_eq_false_iff_ne.mpr other]
  | cons first rest ih =>
    obtain ⟨k', v'⟩ := first
    unfold put
    split_ifs with same
    · subst same
      simp [List.lookup_cons, beq_eq_false_iff_ne.mpr other]
    · simp only [List.lookup_cons, ih]

theorem put_of_lookup (found : entries.lookup key = some value) : put key value entries = entries := by
  induction entries with
  | nil => simp at found
  | cons first rest ih =>
    obtain ⟨k', v'⟩ := first
    unfold put
    split_ifs with same
    · subst same
      simp only [List.lookup_cons, beq_self_eq_true, Option.some.injEq] at found
      rw [← found]
    · rw [List.lookup_cons, beq_eq_false_iff_ne.mpr same] at found
      rw [ih found]

end Put

end Mcp.Lib.Entries
