import Mcp.JsonStruct
import Mcp.Lib.Matching
import Mcp.Spy.Inference

namespace Mcp

namespace Any

def children : Any → List Any
  | .slice elements => elements
  | .object entries => entries.map Prod.snd
  | _ => []

@[elab_as_elim]
theorem induct {P : Any → Prop} (step : ∀ v : Any, (∀ x ∈ v.children, P x) → P v) (v : Any) : P v :=
  @Any.rec P (fun elements => ∀ x ∈ elements, P x) (fun entries => ∀ x ∈ entries.map Prod.snd, P x)
    (fun entry => P entry.2) (step _ (by simp [children])) (fun _ => step _ (by simp [children]))
    (fun _ => step _ (by simp [children])) (fun _ => step _ (by simp [children]))
    (fun _ each => step _ each) (fun _ each => step _ each)
    (by simp) (fun _ _ first rest => List.forall_mem_cons.mpr ⟨first, rest⟩)
    (by simp) (fun _ _ first rest => List.forall_mem_cons.mpr ⟨first, rest⟩)
    (fun _ _ second => second) v

theorem mem_children_of_lookup {entries : List (String × Any)} {k : String} {v : Any}
    (found : entries.lookup k = some v) : v ∈ (Any.object entries).children :=
  List.mem_map.mpr ⟨(k, v), Lib.Entries.mem_of_lookup found, rfl⟩

end Any

namespace Diff
open Lib Matching Entries
open Spy (Distinct DistinctElements DistinctEntries)

-- The checks of `deepEqual` that come before its type switch.
def nilFirst (a b : Any) (otherwise : Bool) : Bool :=
  if a = .nil ∧ b = .nil then true else if a = .nil ∨ b = .nil then false else otherwise

mutual

def compareValues (ignoreOrder : Bool) : Any → Any → Bool
  | .object av, b => match b with
      | .object bv => av.length == bv.length && compareEntries ignoreOrder av bv
      | _ => false
  | .slice av, b => match b with
      | .slice bv => av.length == bv.length &&
          if ignoreOrder then findItems ignoreOrder av bv else compareItems ignoreOrder av bv
      | _ => false
  | .nil, b => Any.nil.compare b = some true
  | .bool v, b => (Any.bool v).compare b = some true
  | .float64 v, b => (Any.float64 v).compare b = some true
  | .string v, b => (Any.string v).compare b = some true
termination_by structural a => a

def compareEntries (ignoreOrder : Bool) : List (String × Any) → List (String × Any) → Bool
  | [], _ => true
  | (k, aVal) :: rest, b => match b.lookup k with
      | none => false
      | some bVal => compareValues ignoreOrder aVal bVal && compareEntries ignoreOrder rest b

def findItems (ignoreOrder : Bool) : List Any → List Any → Bool
  | [], _ => true
  | aItem :: rest, b =>
    (b.any fun bItem => nilFirst aItem bItem (compareValues ignoreOrder aItem bItem)) && findItems ignoreOrder rest b

def compareItems (ignoreOrder : Bool) : List Any → List Any → Bool
  | [], _ => true
  | aItem :: rest, b => match b with
      | [] => true
      | bItem :: others =>
        nilFirst aItem bItem (compareValues ignoreOrder aItem bItem) && compareItems ignoreOrder rest others

end

def compareJSON (ignoreOrder : Bool) (a b : List (String × Any)) : Bool :=
  a.length == b.length && compareEntries ignoreOrder a b

def compareArrays (ignoreOrder : Bool) (a b : List Any) : Bool :=
  a.length == b.length && if ignoreOrder then findItems ignoreOrder a b else compareItems ignoreOrder a b

def deepEqual (ignoreOrder : Bool) (a b : Any) : Bool := nilFirst a b (compareValues ignoreOrder a b)

section Functions

variable {ignoreOrder : Bool} {xs ys : List Any} {entries others : List (String × Any)}

theorem compareValues_eq_deepEqual (a b : Any) : compareValues ignoreOrder a b = deepEqual ignoreOrder a b := by
  cases a <;> cases b <;> simp [deepEqual, nilFirst, compareValues, Any.compare, Any.key?]

@[simp] theorem deepEqual_slice (xs ys : List Any) :
    deepEqual ignoreOrder (.slice xs) (.slice ys) = compareArrays ignoreOrder xs ys := rfl

@[simp] theorem deepEqual_object (entries others : List (String × Any)) :
    deepEqual ignoreOrder (.object entries) (.object others) = compareJSON ignoreOrder entries others := rfl

theorem findItems_iff : findItems ignoreOrder xs ys = true ↔ ∀ x ∈ xs, ∃ y ∈ ys, deepEqual ignoreOrder x y = true := by
  induction xs with
  | nil => simp [findItems]
  | cons x rest ih =>
    rw [findItems, Bool.and_eq_true, List.any_eq_true, ih, List.forall_mem_cons]
    rfl

theorem compareItems_iff (length : xs.length = ys.length) :
    compareItems ignoreOrder xs ys = true ↔ List.Forall₂ (fun x y => deepEqual ignoreOrder x y = true) xs ys := by
  induction xs generalizing ys with
  | nil =>
    rw [List.eq_nil_of_length_eq_zero length.symm]
    simp [compareItems]
  | cons x rest ih =>
    cases ys with
    | nil => simp at length
    | cons y others =>
      rw [compareItems, Bool.and_eq_true, ih (Nat.succ.inj length), List.forall₂_cons]
      rfl

theorem compareEntries_iff : compareEntries ignoreOrder entries others = true ↔
    ∀ entry ∈ entries, ∃ w, others.lookup entry.1 = some w ∧ deepEqual ignoreOrder entry.2 w = true := by
  induction entries with
  | nil => simp [compareEntries]
  | cons entry rest ih =>
    obtain ⟨k, v⟩ := entry
    rw [List.forall_mem_cons, ← ih, compareEntries]
    cases found : others.lookup k with
    | none => simp
    | some w => simp [compareValues_eq_deepEqual]

theorem compareJSON_iff (nodup : (keys entries).Nodup) (nodup' : (keys others).Nodup) :
    compareJSON ignoreOrder entries others = true ↔ (∀ k, (entries.lookup k).isSome = (others.lookup k).isSome) ∧
        ∀ k v w, entries.lookup k = some v → others.lookup k = some w → deepEqual ignoreOrder v w = true := by
  rw [compareJSON, Bool.and_eq_true, beq_iff_eq, compareEntries_iff]
  constructor
  · rintro ⟨length, each⟩
    have inside : keys entries ⊆ keys others := by
      intro k member
      obtain ⟨entry, stored, rfl⟩ := List.mem_map.mp member
      obtain ⟨w, found, -⟩ := each entry stored
      exact lookup_isSome_iff.mp (by rw [found]; rfl)
    have perm : (keys entries).Perm (keys others) :=
      (nodup.subperm inside).perm_of_length_le (by simp [keys, length])
    refine ⟨fun k => ?_, fun k v w left right => ?_⟩
    · rw [Bool.eq_iff_iff, lookup_isSome_iff, lookup_isSome_iff]
      exact perm.mem_iff
    · obtain ⟨w', found, equal⟩ := each (k, v) (mem_of_lookup left)
      obtain rfl := Option.some.inj (right.symm.trans found)
      exact equal
  · rintro ⟨same, values⟩
    have perm : (keys entries).Perm (keys others) := (List.perm_ext_iff_of_nodup nodup nodup').mpr fun k => by
      rw [← lookup_isSome_iff, ← lookup_isSome_iff, same k]
    refine ⟨by simpa [keys] using perm.length_eq, fun entry stored => ?_⟩
    have found := lookup_of_mem_of_nodup nodup stored
    obtain ⟨w, there⟩ := Option.isSome_iff_exists.mp ((same entry.1).symm.trans (by rw [found]; rfl))
    exact ⟨w, there, values _ _ _ found there⟩

theorem compareArrays_unordered_iff : compareArrays true xs ys = true ↔
    xs.length = ys.length ∧ ∀ x ∈ xs, ∃ y ∈ ys, deepEqual true x y = true := by
  simp only [compareArrays, Bool.and_eq_true, beq_iff_eq, if_true, findItems_iff]

theorem compareArrays_ordered_iff : compareArrays false xs ys = true ↔
    List.Forall₂ (fun x y => deepEqual false x y = true) xs ys := by
  simp only [compareArrays, Bool.and_eq_true, beq_iff_eq, Bool.false_eq_true, if_false]
  constructor
  · rintro ⟨length, each⟩
    exact (compareItems_iff length).mp each
  · intro each
    exact ⟨each.length_eq, (compareItems_iff each.length_eq).mpr each⟩

end Functions

/-- Equal JSON values, where the elements of arrays may stand in any order at each level. -/
inductive Same : Any → Any → Prop
  | nil : Same .nil .nil
  | bool (b : Bool) : Same (.bool b) (.bool b)
  | float64 (q : ℚ) : Same (.float64 q) (.float64 q)
  | string (s : String) : Same (.string s) (.string s)
  | slice {xs zs ys : List Any} (length : xs.length = zs.length)
      (each : ∀ (i : Nat) x z, xs[i]? = some x → zs[i]? = some z → Same x z) (perm : zs.Perm ys) :
      Same (.slice xs) (.slice ys)
  | object {entries others : List (String × Any)}
      (keys : ∀ k, (entries.lookup k).isSome = (others.lookup k).isSome)
      (values : ∀ k v w, entries.lookup k = some v → others.lookup k = some w → Same v w) :
      Same (.object entries) (.object others)

namespace Same

section

variable {xs ys : List Any} {entries others : List (String × Any)}

theorem slice_iff : Same (.slice xs) (.slice ys) ↔ Multiset.Rel Same (xs : Multiset Any) ys := by
  rw [rel_coe_iff]
  constructor
  · rintro (_ | _ | _ | _ | ⟨length, each, perm⟩)
    exact ⟨_, forall₂_iff_getElem?.mpr ⟨length, each⟩, perm⟩
  · rintro ⟨zs, each, perm⟩
    obtain ⟨length, each⟩ := forall₂_iff_getElem?.mp each
    exact .slice length each perm

theorem object_iff : Same (.object entries) (.object others) ↔
      (∀ k, (entries.lookup k).isSome = (others.lookup k).isSome) ∧
      ∀ k v w, entries.lookup k = some v → others.lookup k = some w → Same v w := by
  constructor
  · rintro (_ | _ | _ | _ | _ | ⟨keys, values⟩)
    exact ⟨keys, values⟩
  · exact fun ⟨keys, values⟩ => .object keys values

end

theorem refl (v : Any) : Same v v := by
  induction v using Any.induct with
  | step v ih =>
    cases v with
    | nil => exact .nil
    | bool b => exact .bool b
    | float64 q => exact .float64 q
    | string s => exact .string s
    | slice xs => exact slice_iff.mpr (Multiset.rel_refl_of_refl_on ih)
    | object entries =>
      refine .object (fun _ => rfl) fun k v w left right => ?_
      obtain rfl := Option.some.inj (left.symm.trans right)
      exact ih v (Any.mem_children_of_lookup left)

variable {v w : Any}

theorem symm (same : Same v w) : Same w v := by
  induction v using Any.induct generalizing w with
  | step v ih =>
    cases same with
    | nil => exact .nil
    | bool b => exact .bool b
    | float64 q => exact .float64 q
    | string s => exact .string s
    | slice length each perm =>
      have related := slice_iff.mp (.slice length each perm)
      refine slice_iff.mpr (Multiset.rel_flip.mp (related.mono fun x inside y _ same => ?_))
      exact ih x inside same
    | object keys values =>
      refine .object (fun k => (keys k).symm) fun k v w left right => ?_
      exact ih w (Any.mem_children_of_lookup right) (values k w v right left)

theorem trans {u : Any} (first : Same u v) (second : Same v w) : Same u w := by
  induction u using Any.induct generalizing v w with
  | step u ih =>
    cases first with
    | nil | bool | float64 | string => exact second
    | slice length each perm =>
      cases second with
      | slice length' each' perm' =>
        have related := rel_comp (slice_iff.mp (.slice length each perm)) (slice_iff.mp (.slice length' each' perm'))
        refine slice_iff.mpr (related.mono fun x inside z _ ⟨y, left, right⟩ => ?_)
        exact ih x inside left right
    | object keys values =>
      cases second with
      | object keys' values' =>
        refine .object (fun k => (keys k).trans (keys' k)) fun k v w left right => ?_
        obtain ⟨y, between⟩ := Option.isSome_iff_exists.mp ((keys k).symm.trans (by rw [left]; rfl))
        exact ih v (Any.mem_children_of_lookup left) (values k v y left between) (values' k y w between right)

theorem equivalence : Equivalence Same := ⟨refl, symm, trans⟩

end Same

open scoped Classical in
/-- Unequal values that differ only in how often elements of arrays occur: each element of an array has a partner in
the other, equal to it or different from it in the same way, and some element is rarer in the other. -/
inductive Overlooked : Any → Any → Prop
  | slice {xs ys : List Any} (length : xs.length = ys.length) (partner : Any → Any)
      (present : ∀ x ∈ xs, partner x ∈ ys) (close : ∀ x ∈ xs, ¬ Same x (partner x) → Overlooked x (partner x))
      (x : Any) (member : x ∈ xs) (rarer : ys.countP (Same x ·) < xs.countP (Same x ·)) :
      Overlooked (.slice xs) (.slice ys)
  | object {entries others : List (String × Any)}
      (keys : ∀ k, (entries.lookup k).isSome = (others.lookup k).isSome)
      (values : ∀ k v w, entries.lookup k = some v → others.lookup k = some w → ¬ Same v w → Overlooked v w)
      (k : String) (v w : Any) (left : entries.lookup k = some v) (right : others.lookup k = some w)
      (differ : ¬ Same v w) :
      Overlooked (.object entries) (.object others)

theorem Overlooked.not_same {a b : Any} (overlooked : Overlooked a b) : ¬ Same a b := by
  cases overlooked with
  | slice length _ _ _ x member rarer =>
    rw [Same.slice_iff, rel_iff_countP_le Same.equivalence length]
    exact fun most => absurd (most x member) (not_le.mpr rarer)
  | object _ _ k v w left right differ =>
    rw [Same.object_iff]
    exact fun ⟨_, values⟩ => differ (values k v w left right)

theorem distinctElements_iff {xs : List Any} : DistinctElements xs ↔ ∀ x ∈ xs, Distinct x := by
  induction xs with
  | nil => simp [DistinctElements]
  | cons x rest ih => rw [DistinctElements, ih, List.forall_mem_cons]

theorem distinctEntries_iff {entries : List (String × Any)} :
    DistinctEntries entries ↔ ∀ entry ∈ entries, Distinct entry.2 := by
  induction entries with
  | nil => simp [DistinctEntries]
  | cons entry rest ih => rw [DistinctEntries, ih, List.forall_mem_cons]

section Decided

variable {xs ys : List Any} {entries others : List (String × Any)}

theorem compareArrays_iff (each : ∀ x ∈ xs, ∀ y ∈ ys, (deepEqual true x y = true ↔ Same x y ∨ Overlooked x y)) :
    compareArrays true xs ys = true ↔ Same (.slice xs) (.slice ys) ∨ Overlooked (.slice xs) (.slice ys) := by
  rw [compareArrays_unordered_iff]
  constructor
  · rintro ⟨length, found⟩
    by_cases same : Same (.slice xs) (.slice ys)
    · exact .inl same
    · choose! partner present equal using found
      rw [Same.slice_iff, rel_iff_countP_le Same.equivalence length] at same
      push Not at same
      obtain ⟨x, member, rarer⟩ := same
      refine .inr (.slice length partner present (fun x member differ => ?_) x member rarer)
      exact ((each x member _ (present x member)).mp (equal x member)).resolve_left differ
  · rintro (same | overlooked)
    · obtain ⟨zs, related, perm⟩ := rel_coe_iff.mp (Same.slice_iff.mp same)
      refine ⟨related.length_eq.trans perm.length_eq, fun x member => ?_⟩
      obtain ⟨z, place, equal⟩ := exists_of_mem_left related member
      have inside := perm.mem_iff.mp place
      exact ⟨z, inside, (each x member z inside).mpr (.inl equal)⟩
    · cases overlooked with
      | slice length partner present close _ _ _ =>
        refine ⟨length, fun x member => ⟨partner x, present x member, ?_⟩⟩
        exact (each x member _ (present x member)).mpr (Classical.or_iff_not_imp_left.mpr (close x member))

theorem compareJSON_unordered_iff (nodup : (keys entries).Nodup) (nodup' : (keys others).Nodup)
    (each : ∀ k v w, entries.lookup k = some v → others.lookup k = some w →
      (deepEqual true v w = true ↔ Same v w ∨ Overlooked v w)) :
    compareJSON true entries others = true ↔
      Same (.object entries) (.object others) ∨ Overlooked (.object entries) (.object others) := by
  rw [compareJSON_iff nodup nodup', Same.object_iff]
  constructor
  · rintro ⟨same, equal⟩
    by_cases values : ∀ k v w, entries.lookup k = some v → others.lookup k = some w → Same v w
    · exact .inl ⟨same, values⟩
    · push Not at values
      obtain ⟨k, v, w, left, right, differ⟩ := values
      refine .inr (.object same (fun k v w left right differ => ?_) k v w left right differ)
      exact ((each k v w left right).mp (equal k v w left right)).resolve_left differ
  · rintro (⟨same, values⟩ | overlooked)
    · exact ⟨same, fun k v w left right => (each k v w left right).mpr (.inl (values k v w left right))⟩
    · cases overlooked with
      | object same values _ _ _ _ _ _ =>
        refine ⟨same, fun k v w left right => (each k v w left right).mpr ?_⟩
        exact Classical.or_iff_not_imp_left.mpr (values k v w left right)

theorem Distinct.of_lookup (distinct : Distinct (.object entries)) {k : String} {v : Any}
    (found : entries.lookup k = some v) : Distinct v :=
  distinctEntries_iff.mp distinct.2 _ (mem_of_lookup found)

variable {a b : Any}

theorem Same.eq_of_key (hashable : a.key?.isSome) : Same a b ↔ a = b := by
  constructor
  · rintro (_ | _ | _ | _ | _ | _)
    any_goals rfl
    all_goals simp [Any.key?] at hashable
  · rintro rfl
    exact Same.refl a

theorem deepEqual_of_key (hashable : a.key?.isSome) : deepEqual true a b = true ↔ Same a b ∨ Overlooked a b := by
  have close : ¬ Overlooked a b := by
    rintro (_ | _) <;> simp [Any.key?] at hashable
  rw [Same.eq_of_key hashable, or_iff_left close]
  cases a <;> cases b <;> simp_all [deepEqual, nilFirst, compareValues, Any.compare, Any.key?]

theorem deepEqual_iff (left : Distinct a) (right : Distinct b) :
    deepEqual true a b = true ↔ Same a b ∨ Overlooked a b := by
  induction a using Any.induct generalizing b with
  | step a ih =>
    cases a with
    | slice xs =>
      cases b with
      | slice ys =>
        refine compareArrays_iff fun x inside y inside' => ?_
        exact ih x inside (distinctElements_iff.mp left x inside) (distinctElements_iff.mp right y inside')
      | _ => exact iff_of_false (by simp [deepEqual, nilFirst, compareValues]) (by rintro (h | h) <;> cases h)
    | object entries =>
      cases b with
      | object others =>
        refine compareJSON_unordered_iff left.1 right.1 fun k v w found found' => ?_
        exact ih v (Any.mem_children_of_lookup found) (Distinct.of_lookup left found) (Distinct.of_lookup right found')
      | _ => exact iff_of_false (by simp [deepEqual, nilFirst, compareValues]) (by rintro (h | h) <;> cases h)
    | _ => exact deepEqual_of_key rfl

end Decided

/-- With the order ignored, `compareArrays` decides equality of multisets for just the arrays that do not differ in
overlooked repetitions. -/
theorem compareArrays_multiset_iff {a b : List Any} (left : Distinct (.slice a)) (right : Distinct (.slice b)) :
    (compareArrays true a b = true ↔ Multiset.Rel Same (a : Multiset Any) b) ↔ ¬ Overlooked (.slice a) (.slice b) := by
  have decided := deepEqual_iff left right
  rw [deepEqual_slice] at decided
  rw [decided, ← Same.slice_iff, or_iff_left_iff_imp]
  constructor
  · exact fun equal overlooked => overlooked.not_same (equal overlooked)
  · exact fun none overlooked => absurd overlooked none

theorem compareArrays_multiset_swapped :
    let x : Any := .object [("k", .float64 1)]
    let y : Any := .slice [.float64 1, .float64 1]
    compareArrays true [x, y, y] [y, x, y] = true ∧ ¬ Overlooked (.slice [x, y, y]) (.slice [y, x, y]) := by
  intro x y
  have equal : compareArrays true [x, y, y] [y, x, y] = true := by decide
  have related : Multiset.Rel Same ([x, y, y] : Multiset Any) [y, x, y] := by
    rw [Multiset.coe_eq_coe.mpr (List.Perm.swap y x [y])]
    exact Multiset.rel_refl_of_refl_on fun v _ => Same.refl v
  have left : Distinct (.slice [x, y, y]) := by
    simp [x, y, Spy.Distinct, Spy.DistinctElements, Spy.DistinctEntries, keys]
  have right : Distinct (.slice [y, x, y]) := by
    simp [x, y, Spy.Distinct, Spy.DistinctElements, Spy.DistinctEntries, keys]
  exact ⟨equal, (compareArrays_multiset_iff left right).mp (iff_of_true equal related)⟩

theorem compareArrays_repetition_overlooked :
    compareArrays true (Json.decodeElements [.number 1, .number 1]) (Json.decodeElements [.number 1, .number 2]) =
      true ∧
      compareArrays true (Json.decodeElements [.number 1, .number 2]) (Json.decodeElements [.number 1, .number 1]) =
        false ∧
      ¬ Multiset.Rel Same (Json.decodeElements [.number 1, .number 1] : Multiset Any)
        (Json.decodeElements [.number 1, .number 2]) := by
  refine ⟨by decide, by decide, fun related => ?_⟩
  have turned : deepEqual true (Json.array [.number 1, .number 2]).decode (Json.array [.number 1, .number 1]).decode =
      true :=
    (deepEqual_iff (Spy.distinct_decode _) (Spy.distinct_decode _)).mpr (.inl (Same.slice_iff.mpr related).symm)
  exact absurd turned (by decide)

theorem deepEqual_self {ignoreOrder : Bool} {v : Any} (distinct : Distinct v) : deepEqual ignoreOrder v v = true := by
  cases ignoreOrder with
  | true => exact (deepEqual_iff distinct distinct).mpr (.inl (Same.refl v))
  | false =>
    induction v using Any.induct with
    | step v ih =>
      cases v with
      | slice xs =>
        refine compareArrays_ordered_iff.mpr (List.forall₂_same.mpr fun x inside => ?_)
        exact ih x inside (distinctElements_iff.mp distinct x inside)
      | object entries =>
        refine (compareJSON_iff distinct.1 distinct.1).mpr ⟨fun _ => rfl, fun k v w left right => ?_⟩
        obtain rfl := Option.some.inj (left.symm.trans right)
        exact ih v (Any.mem_children_of_lookup left) (Distinct.of_lookup distinct left)
      | _ => simp [deepEqual, nilFirst, compareValues, Any.compare, Any.key?]

end Diff

end Mcp
