import Mathlib.Data.List.Nodup
import Mathlib.Data.List.Pairwise
import Mathlib.Order.Lattice

/-! # Sorting by descending keys -/

namespace Mcp.Lib.Sorting

variable {τ κ : Type*} [LinearOrder κ] (key : τ → κ)

def pass : Nat → List τ → List τ
  | n + 1, a :: b :: rest => if key a < key b then b :: pass n (a :: rest) else a :: pass n (b :: rest)
  | _, items => items

def passes : Nat → List τ → List τ
  | 0, items => items
  | n + 1, items => passes n (pass key (n + 1) items)

def bubbleSort (items : List τ) : List τ := passes key (items.length - 1) items

def sortSlice (less : τ → τ → Bool) (items : List τ) : List τ := items.mergeSort fun a b => !less b a

def Descending (items : List τ) : Prop := items.Pairwise fun a b => key b ≤ key a

variable {key}

theorem last_le {front front' : List τ} {a last : τ} (perm : (front' ++ [last]).Perm (a :: front))
    (lowest : ∀ b ∈ front', key last ≤ key b) : key last ≤ key a := by
  rcases List.mem_append.mp (perm.mem_iff.mpr List.mem_cons_self) with inside | alone
  · exact lowest a inside
  · rw [List.mem_singleton.mp alone]

theorem exists_pass (key : τ → κ) (a : τ) (front back : List τ) :
    ∃ front' last, pass key front.length (a :: front ++ back) = front' ++ last :: back ∧
      (front' ++ [last]).Perm (a :: front) ∧ ∀ b ∈ front', key last ≤ key b := by
  induction front generalizing a with
  | nil => exact ⟨[], a, rfl, .refl _, by simp⟩
  | cons b front ih =>
    by_cases swap : key a < key b
    · obtain ⟨front', last, passed, perm, lowest⟩ := ih a
      refine ⟨b :: front', last, ?_, ?_, ?_⟩
      · simp only [List.length_cons, List.cons_append, pass, if_pos swap]
        exact congrArg (b :: ·) passed
      · exact (perm.cons b).trans (.swap a b front)
      · exact List.forall_mem_cons.mpr ⟨(last_le perm lowest).trans swap.le, lowest⟩
    · obtain ⟨front', last, passed, perm, lowest⟩ := ih b
      refine ⟨a :: front', last, ?_, perm.cons a, ?_⟩
      · simp only [List.length_cons, List.cons_append, pass, if_neg swap]
        exact congrArg (a :: ·) passed
      · exact List.forall_mem_cons.mpr ⟨(last_le perm lowest).trans (not_lt.mp swap), lowest⟩

theorem passes_spec (n : Nat) (front back : List τ) (length : front.length = n + 1) (sorted : Descending key back)
    (below : ∀ a ∈ front, ∀ b ∈ back, key b ≤ key a) :
    (passes key n (front ++ back)).Perm (front ++ back) ∧ Descending key (passes key n (front ++ back)) := by
  induction n generalizing front back with
  | zero =>
    obtain ⟨a, rfl⟩ := List.length_eq_one_iff.mp length
    exact ⟨.refl _, List.pairwise_cons.mpr ⟨below a List.mem_cons_self, sorted⟩⟩
  | succ n ih =>
    cases front with
    | nil => cases length
    | cons a front =>
      obtain ⟨front', last, passed, perm, lowest⟩ := exists_pass key a front back
      have count : front.length = n + 1 := Nat.succ.inj length
      have count' : front'.length = n + 1 := by simpa [count] using perm.length_eq
      have inside : ∀ b ∈ front' ++ [last], b ∈ a :: front := fun b => perm.mem_iff.mp
      have next := ih front' (last :: back) count'
        (List.pairwise_cons.mpr ⟨below last (inside last (by simp)), sorted⟩)
        (fun b member => List.forall_mem_cons.mpr ⟨lowest b member, below b (inside b (by simp [member]))⟩)
      rw [passes, ← count, passed]
      refine ⟨next.1.trans ?_, next.2⟩
      simpa using perm.append_right back

theorem bubbleSort_spec (key : τ → κ) (items : List τ) :
    (bubbleSort key items).Perm items ∧ Descending key (bubbleSort key items) := by
  cases items with
  | nil => exact ⟨.refl _, List.Pairwise.nil⟩
  | cons a items => simpa [bubbleSort] using passes_spec items.length (a :: items) [] (by simp) .nil (by simp)

theorem sortSlice_spec (key : τ → κ) (items : List τ) : (sortSlice (fun a b => key b < key a) items).Perm items ∧
      Descending key (sortSlice (fun a b => key b < key a) items) := by
  refine ⟨List.mergeSort_perm .., ?_⟩
  have sorted : (sortSlice (fun a b => key b < key a) items).Pairwise
      fun a b => (!decide (key a < key b)) = true := by
    apply List.pairwise_mergeSort
    · intro a b c
      simpa using fun first second => le_trans second first
    · intro a b
      simpa using le_total (key b) (key a)
  exact sorted.imp fun order => by simpa using order

variable {items items' : List τ}

theorem Descending.unique (sorted : Descending key items) (sorted' : Descending key items')
    (perm : items.Perm items') (distinct : (items.map key).Nodup) : items = items' := by
  refine perm.eq_of_pairwise (fun a b member member' ge le => ?_) sorted sorted'
  exact List.inj_on_of_nodup_map distinct member (perm.mem_iff.mpr member') (le_antisymm le ge)

structure StableSort (key : τ → κ) (items sorted : List τ) : Prop where
  perm : sorted.Perm items
  descending : Descending key sorted
  -- items of one key keep their order
  ties : ∀ k, sorted.filter (key · = k) = items.filter (key · = k)

theorem pass_ties (k : κ) (n : Nat) (items : List τ) :
    (pass key n items).filter (key · = k) = items.filter (key · = k) := by
  fun_induction pass key n items with
  | case1 n a b rest swap ih =>
    -- only items of different keys change places
    have different : ¬(key a = k ∧ key b = k) := by
      rintro ⟨rfl, same⟩
      exact absurd same swap.ne'
    simp only [List.filter_cons, ih]
    split_ifs <;> simp_all
  | case2 n a b rest swap ih =>
    rw [List.filter_cons, ih]
    by_cases here : key a = k <;> simp [here]
  | case3 => rfl

theorem passes_ties (k : κ) (n : Nat) (items : List τ) :
    (passes key n items).filter (key · = k) = items.filter (key · = k) := by
  induction n generalizing items with
  | zero => rfl
  | succ n ih => rw [passes, ih, pass_ties]

theorem bubbleSort_stable (key : τ → κ) (items : List τ) : StableSort key items (bubbleSort key items) where
  perm := (bubbleSort_spec key items).1
  descending := (bubbleSort_spec key items).2
  ties k := passes_ties k _ items

theorem mem_iff_of_ties (ties : ∀ k, items.filter (key · = k) = items'.filter (key · = k)) (a : τ) :
    a ∈ items ↔ a ∈ items' := by
  have member := congrArg (a ∈ ·) (ties (key a))
  simpa using member

theorem Descending.eq_of_ties (sorted : Descending key items) (sorted' : Descending key items')
    (ties : ∀ k, items.filter (key · = k) = items'.filter (key · = k)) : items = items' := by
  induction items generalizing items' with
  | nil =>
    cases items' with
    | nil => rfl
    | cons b items' => simpa using mem_iff_of_ties ties b
  | cons a items ih =>
    cases items' with
    | nil => simpa using mem_iff_of_ties ties a
    | cons b items' =>
      have first := List.pairwise_cons.mp sorted
      have first' := List.pairwise_cons.mp sorted'
      have above : ∀ c ∈ a :: items, key c ≤ key a := List.forall_mem_cons.mpr ⟨le_refl _, first.1⟩
      have above' : ∀ c ∈ b :: items', key c ≤ key b := List.forall_mem_cons.mpr ⟨le_refl _, first'.1⟩
      have equal : key a = key b := le_antisymm (above' a ((mem_iff_of_ties ties a).mp (by simp)))
        (above b ((mem_iff_of_ties ties b).mpr (by simp)))
      have heads := ties (key a)
      simp only [List.filter_cons, equal, decide_true, if_true] at heads
      obtain ⟨rfl, -⟩ := List.cons.inj heads
      have tails : ∀ k, items.filter (key · = k) = items'.filter (key · = k) := by
        intro k
        have both := ties k
        simp only [List.filter_cons] at both
        split_ifs at both
        · exact (List.cons.inj both).2
        · exact both
      rw [ih first.2 first'.2 tails]

theorem StableSort.unique {sorted sorted' : List τ} (stable : StableSort key items sorted)
    (stable' : StableSort key items sorted') : sorted = sorted' :=
  stable.descending.eq_of_ties stable'.descending fun k => (stable.ties k).trans (stable'.ties k).symm

end Mcp.Lib.Sorting
