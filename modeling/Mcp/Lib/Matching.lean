import Mathlib.Data.Multiset.Filter

/-! # Lists matched element by element -/

namespace Mcp.Lib.Matching

section Places

variable {α β : Type*} {R : α → β → Prop} {xs : List α} {ys : List β}

theorem forall₂_iff_getElem? : List.Forall₂ R xs ys ↔
      xs.length = ys.length ∧ ∀ (i : Nat) x y, xs[i]? = some x → ys[i]? = some y → R x y := by
  rw [List.forall₂_iff_get]
  refine and_congr_right fun length => ⟨fun each i x y left right => ?_, fun each i inside inside' => ?_⟩
  · obtain ⟨inside, rfl⟩ := List.getElem?_eq_some_iff.mp left
    obtain ⟨inside', rfl⟩ := List.getElem?_eq_some_iff.mp right
    exact each i inside inside'
  · exact each i _ _ (List.getElem?_eq_getElem inside) (List.getElem?_eq_getElem inside')

theorem exists_of_mem_left (each : List.Forall₂ R xs ys) {x : α} (member : x ∈ xs) : ∃ y ∈ ys, R x y := by
  induction each with
  | nil => cases member
  | cons first _ ih =>
    rcases List.mem_cons.mp member with rfl | later
    · exact ⟨_, List.mem_cons_self, first⟩
    · obtain ⟨y, place, related⟩ := ih later
      exact ⟨y, List.mem_cons_of_mem _ place, related⟩

theorem forall_mem_iff_of_forall₂ {P : α → Prop} {Q : β → Prop} (each : List.Forall₂ (fun x y => P x ↔ Q y) xs ys) :
    (∀ x ∈ xs, P x) ↔ ∀ y ∈ ys, Q y := by
  induction each with
  | nil => simp
  | cons first _ ih => rw [List.forall_mem_cons, List.forall_mem_cons, first, ih]

theorem exists_forall₂ (each : ∀ x ∈ xs, ∃ y, R x y) : ∃ ys, List.Forall₂ R xs ys := by
  induction xs with
  | nil => exact ⟨[], .nil⟩
  | cons x rest ih =>
    obtain ⟨⟨y, first⟩, others⟩ := List.forall_mem_cons.mp each
    obtain ⟨ys, related⟩ := ih others
    exact ⟨y :: ys, .cons first related⟩

theorem rel_coe_iff : Multiset.Rel R (xs : Multiset α) (ys : Multiset β) ↔ ∃ zs, List.Forall₂ R xs zs ∧ zs.Perm ys := by
  constructor
  · intro related
    induction xs generalizing ys with
    | nil =>
      have none : (ys : Multiset β) = 0 := Multiset.rel_zero_left.mp related
      exact ⟨[], .nil, (Multiset.coe_eq_zero ys).mp none ▸ .nil⟩
    | cons x rest ih =>
      obtain ⟨y, others, first, later, joined⟩ := Multiset.rel_cons_left.mp
        (show Multiset.Rel R (x ::ₘ (rest : Multiset α)) ys from related)
      obtain ⟨others, rfl⟩ := Quot.exists_rep others
      obtain ⟨zs, each, perm⟩ := ih later
      exact ⟨y :: zs, .cons first each, (perm.cons y).trans (Multiset.coe_eq_coe.mp joined).symm⟩
  · rintro ⟨zs, each, perm⟩
    rw [← Multiset.coe_eq_coe.mpr perm]
    clear perm
    induction each with
    | nil => exact .zero
    | cons first _ ih => exact .cons first ih

variable {γ : Type*} {S : β → γ → Prop} {s : Multiset α} {t : Multiset β} {u : Multiset γ}

theorem rel_comp (first : Multiset.Rel R s t) (second : Multiset.Rel S t u) : Multiset.Rel (Relation.Comp R S) s u := by
  induction first generalizing u with
  | zero =>
    rw [Multiset.rel_zero_left.mp second]
    exact .zero
  | cons related _ ih =>
    obtain ⟨z, others, next, later, rfl⟩ := Multiset.rel_cons_left.mp second
    exact .cons ⟨_, related, next⟩ (ih later)

end Places

section Counting

variable {α : Type*} {r : α → α → Prop} {xs ys : List α}

open scoped Classical in
theorem rel_iff_countP_le (equivalence : Equivalence r) (length : xs.length = ys.length) :
    Multiset.Rel r (xs : Multiset α) ys ↔ ∀ x ∈ xs, xs.countP (r x ·) ≤ ys.countP (r x ·) := by
  constructor
  · intro related x _
    have : IsTrans α r := ⟨fun _ _ _ => equivalence.trans⟩
    have : Std.Symm r := ⟨fun _ _ => equivalence.symm⟩
    have same := Multiset.Rel.countP_eq r x related
    simp only [Multiset.coe_countP] at same
    exact Nat.le_of_eq same
  · intro rarer
    let classes : Setoid α := ⟨r, equivalence⟩
    have counted (zs : List α) (x : α) :
        Multiset.count (Quotient.mk classes x) ((zs : Multiset α).map (Quotient.mk classes)) = zs.countP (r x ·) := by
      rw [Multiset.count_map, ← Multiset.countP_eq_card_filter, Multiset.coe_countP]
      refine List.countP_congr fun z _ => ?_
      rw [decide_eq_true_iff, decide_eq_true_iff]
      exact Quotient.eq
    have below : (xs : Multiset α).map (Quotient.mk classes) ≤ (ys : Multiset α).map (Quotient.mk classes) := by
      refine Multiset.le_iff_count.mpr fun q => ?_
      by_cases member : q ∈ (xs : Multiset α).map (Quotient.mk classes)
      · obtain ⟨x, within, rfl⟩ := Multiset.mem_map.mp member
        rw [counted, counted]
        exact rarer x within
      · rw [Multiset.count_eq_zero_of_notMem member]
        exact Nat.zero_le _
    have whole := Multiset.eq_of_le_of_card_le below (by simp [length])
    have related : Multiset.Rel (fun x y => Quotient.mk classes x = Quotient.mk classes y) (xs : Multiset α) ys :=
      Multiset.rel_map.mp (Multiset.rel_eq.mpr whole)
    exact related.mono fun _ _ _ _ same => Quotient.exact same

end Counting

end Mcp.Lib.Matching
