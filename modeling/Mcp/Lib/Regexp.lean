import Mcp.Lib.Bytes

/-! # Regular expressions -/

namespace Mcp.Lib

inductive Regexp where
  | text (bs : Bytes)
  | many (accepts : UInt8 → Bool)
  | plus (accepts : UInt8 → Bool)
  | seq (r s : Regexp)
  | opt (r : Regexp)
  | group (n : Nat) (r : Regexp)

namespace Regexp

abbrev Captures := List (Nat × Bytes)

def Run (accepts : UInt8 → Bool) (t : Bytes) : Prop := t ≠ [] ∧ ∀ b ∈ t, accepts b

def Matches : Regexp → Bytes → Captures → Prop
  | .text bs, t, c => t = bs ∧ c = []
  | .many accepts, t, c => (∀ b ∈ t, accepts b) ∧ c = []
  | .plus accepts, t, c => Run accepts t ∧ c = []
  | .seq r s, t, c => ∃ t₁ t₂ c₁ c₂, t = t₁ ++ t₂ ∧ c = c₁ ++ c₂ ∧ r.Matches t₁ c₁ ∧ s.Matches t₂ c₂
  | .opt r, t, c => r.Matches t c ∨ t = [] ∧ c = []
  | .group n r, t, c => ∃ c', c = (n, t) :: c' ∧ r.Matches t c'

variable {t front back front' back' : Bytes} {r : Regexp} {c : Captures} {accepts : UInt8 → Bool}

theorem matches_text_seq {bs : Bytes} : (seq (text bs) r).Matches t c ↔ ∃ t', t = bs ++ t' ∧ r.Matches t' c := by
  constructor
  · rintro ⟨_, t', _, c', rfl, rfl, ⟨rfl, rfl⟩, rest⟩
    exact ⟨t', rfl, rest⟩
  · rintro ⟨t', rfl, rest⟩
    exact ⟨bs, t', [], c, rfl, rfl, ⟨rfl, rfl⟩, rest⟩

theorem matches_plus_seq :
    (seq (plus accepts) r).Matches t c ↔ ∃ front t', t = front ++ t' ∧ Run accepts front ∧ r.Matches t' c := by
  constructor
  · rintro ⟨front, t', _, c', rfl, rfl, ⟨run, rfl⟩, rest⟩
    exact ⟨front, t', rfl, run, rest⟩
  · rintro ⟨front, t', rfl, run, rest⟩
    exact ⟨front, t', [], c, rfl, rfl, ⟨run, rfl⟩, rest⟩

theorem matches_group_seq {n : Nat} {s : Regexp} : (seq (group n r) s).Matches t c ↔
      ∃ front t' c₁ c₂, t = front ++ t' ∧ c = (n, front) :: (c₁ ++ c₂) ∧ r.Matches front c₁ ∧ s.Matches t' c₂ := by
  constructor
  · rintro ⟨front, t', _, c₂, rfl, rfl, ⟨c₁, rfl, first⟩, rest⟩
    exact ⟨front, t', c₁, c₂, rfl, rfl, first, rest⟩
  · rintro ⟨front, t', c₁, c₂, rfl, rfl, first, rest⟩
    exact ⟨front, t', (n, front) :: c₁, c₂, rfl, rfl, ⟨c₁, rfl, first⟩, rest⟩

def runs (accepts : UInt8 → Bool) : Bytes → List (Bytes × Bytes)
  | [] => [([], [])]
  | b :: t => if accepts b then (runs accepts t).map (fun s => (b :: s.1, s.2)) ++ [([], b :: t)] else [([], b :: t)]

structure Split where
  matched : Bytes
  captures : Captures
  rest : Bytes

def splits : Regexp → Bytes → List Split
  | .text bs, t => if bs.isPrefixOf t then [⟨bs, [], t.drop bs.length⟩] else []
  | .many accepts, t => (runs accepts t).map fun s => ⟨s.1, [], s.2⟩
  | .plus accepts, t => ((runs accepts t).filter (·.1 ≠ [])).map fun s => ⟨s.1, [], s.2⟩
  | .seq r s, t => (r.splits t).flatMap fun x => (s.splits x.rest).map fun y =>
    ⟨x.matched ++ y.matched, x.captures ++ y.captures, y.rest⟩
  | .opt r, t => r.splits t ++ [⟨[], [], t⟩]
  | .group n r, t => (r.splits t).map fun x => ⟨x.matched, (n, x.matched) :: x.captures, x.rest⟩

def findSubmatch (r : Regexp) (t : Bytes) : Option Captures :=
  ((r.splits t).find? (·.rest = [])).map Split.captures

def submatch (c : Captures) (n : Nat) : Bytes := ((c.find? (·.1 = n)).map Prod.snd).getD []

theorem mem_runs_iff : (front, back) ∈ runs accepts t ↔ t = front ++ back ∧ ∀ b ∈ front, accepts b := by
  induction t generalizing front with
  | nil =>
    simp only [runs, List.mem_singleton, Prod.mk.injEq, List.nil_eq_append_iff]
    constructor
    · rintro ⟨rfl, rfl⟩
      simp
    · exact And.left
  | cons b t ih =>
    cases front with
    | nil =>
      have alone : (([], back) : Bytes × Bytes) ∈ runs accepts (b :: t) ↔ back = b :: t := by
        unfold runs
        split_ifs
        · simp
        · simp
      rw [alone, List.nil_append]
      exact ⟨fun same => ⟨same.symm, by simp⟩, fun whole => whole.1.symm⟩
    | cons b' front =>
      unfold runs
      split_ifs with accepted
      · simp only [List.mem_append, List.mem_map, List.mem_singleton, Prod.mk.injEq, Prod.exists, reduceCtorEq,
          false_and, or_false, List.cons.injEq, List.cons_append, List.forall_mem_cons]
        constructor
        · rintro ⟨front', back', member, ⟨rfl, rfl⟩, rfl⟩
          obtain ⟨rfl, all⟩ := ih.mp member
          exact ⟨⟨rfl, rfl⟩, accepted, all⟩
        · rintro ⟨⟨rfl, rfl⟩, -, all⟩
          exact ⟨front, back, ih.mpr ⟨rfl, all⟩, ⟨rfl, rfl⟩, rfl⟩
      · simp only [List.mem_singleton, Prod.mk.injEq, reduceCtorEq, false_and, List.cons_append, List.cons.injEq,
          List.forall_mem_cons, false_iff, not_and]
        rintro ⟨rfl, -⟩ here
        exact absurd here accepted

theorem mem_splits_iff {x : Split} : x ∈ r.splits t ↔ t = x.matched ++ x.rest ∧ r.Matches x.matched x.captures := by
  obtain ⟨front, c, back⟩ := x
  induction r generalizing t front c back with
  | text bs =>
    simp only [splits, Matches]
    split_ifs with starts
    · obtain ⟨rest, rfl⟩ := List.isPrefixOf_iff_prefix.mp starts
      simp only [List.drop_left, List.mem_singleton, Split.mk.injEq]
      constructor
      · rintro ⟨rfl, rfl, rfl⟩
        exact ⟨rfl, rfl, rfl⟩
      · rintro ⟨same, rfl, rfl⟩
        exact ⟨rfl, rfl, (List.append_cancel_left same).symm⟩
    · simp only [List.not_mem_nil, false_iff, not_and]
      rintro rfl rfl
      exact absurd (List.isPrefixOf_iff_prefix.mpr (List.prefix_append _ _)) starts
  | many accepts =>
    simp only [splits, Matches, List.mem_map, Prod.exists, Split.mk.injEq, mem_runs_iff]
    constructor
    · rintro ⟨front, back, ⟨rfl, all⟩, rfl, rfl, rfl⟩
      exact ⟨rfl, all, rfl⟩
    · rintro ⟨rfl, all, rfl⟩
      exact ⟨front, back, ⟨rfl, all⟩, rfl, rfl, rfl⟩
  | plus accepts =>
    simp only [splits, Matches, List.mem_map, List.mem_filter, decide_eq_true_eq, Prod.exists, Split.mk.injEq,
      mem_runs_iff]
    constructor
    · rintro ⟨front, back, ⟨⟨rfl, all⟩, nonempty⟩, rfl, rfl, rfl⟩
      exact ⟨rfl, ⟨nonempty, all⟩, rfl⟩
    · rintro ⟨rfl, ⟨nonempty, all⟩, rfl⟩
      exact ⟨front, back, ⟨⟨rfl, all⟩, nonempty⟩, rfl, rfl, rfl⟩
  | seq r s first second =>
    simp only [splits, Matches, List.mem_flatMap, List.mem_map, Split.mk.injEq]
    constructor
    · rintro ⟨x, inFirst, y, inSecond, rfl, rfl, rfl⟩
      obtain ⟨rfl, matches₁⟩ := (first _ _ _).mp inFirst
      obtain ⟨split, matches₂⟩ := (second _ _ _).mp inSecond
      exact ⟨by rw [split, List.append_assoc], _, _, _, _, rfl, rfl, matches₁, matches₂⟩
    · rintro ⟨rfl, t₁, t₂, c₁, c₂, rfl, rfl, matches₁, matches₂⟩
      refine ⟨⟨t₁, c₁, t₂ ++ back⟩, (first _ _ _).mpr ⟨by simp, matches₁⟩, ⟨t₂, c₂, back⟩, ?_, rfl, rfl, rfl⟩
      exact (second _ _ _).mpr ⟨rfl, matches₂⟩
  | opt r ih =>
    simp only [splits, Matches, List.mem_append, List.mem_singleton, ih, Split.mk.injEq]
    constructor
    · rintro (⟨rfl, found⟩ | ⟨rfl, rfl, rfl⟩)
      · exact ⟨rfl, .inl found⟩
      · exact ⟨rfl, .inr ⟨rfl, rfl⟩⟩
    · rintro ⟨rfl, found | ⟨rfl, rfl⟩⟩
      · exact .inl ⟨rfl, found⟩
      · exact .inr ⟨rfl, rfl, rfl⟩
  | group n r ih =>
    simp only [splits, Matches, List.mem_map, Split.mk.injEq]
    constructor
    · rintro ⟨x, member, rfl, rfl, rfl⟩
      obtain ⟨split, found⟩ := (ih _ _ _).mp member
      exact ⟨split, _, rfl, found⟩
    · rintro ⟨rfl, c', rfl, found⟩
      exact ⟨⟨front, c', back⟩, (ih _ _ _).mpr ⟨rfl, found⟩, rfl, rfl, rfl⟩

theorem matches_of_findSubmatch (found : r.findSubmatch t = some c) : r.Matches t c := by
  obtain ⟨x, first, rfl⟩ := Option.map_eq_some_iff.mp found
  obtain ⟨split, matched⟩ := mem_splits_iff.mp (List.mem_of_find?_eq_some first)
  have whole : x.rest = [] := by simpa using List.find?_some first
  rw [whole, List.append_nil] at split
  exact split ▸ matched

theorem findSubmatch_of_unique (matched : r.Matches t c)
    (unique : ∀ c', r.Matches t c' → c' = c) : r.findSubmatch t = some c := by
  have member : (⟨t, c, []⟩ : Split) ∈ r.splits t := mem_splits_iff.mpr ⟨(List.append_nil t).symm, matched⟩
  have found : ((r.splits t).find? (·.rest = [])).isSome := List.find?_isSome.mpr ⟨_, member, by simp⟩
  obtain ⟨x, first⟩ := Option.isSome_iff_exists.mp found
  have answer : r.findSubmatch t = some x.captures := by rw [findSubmatch, first, Option.map_some]
  rw [answer, unique _ (matches_of_findSubmatch answer)]

theorem span_unique (all : ∀ b ∈ front, accepts b)
    (all' : ∀ b ∈ front', accepts b) (stops : ∀ b ∈ back.head?, ¬ accepts b) (stops' : ∀ b ∈ back'.head?, ¬ accepts b)
    (same : front ++ back = front' ++ back') : front = front' ∧ back = back' := by
  induction front generalizing front' with
  | nil =>
    cases front' with
    | nil => exact ⟨rfl, same⟩
    | cons b front' =>
      rw [List.nil_append] at same
      exact absurd (all' b List.mem_cons_self) (stops b (by simp [same]))
  | cons b front ih =>
    cases front' with
    | nil =>
      rw [List.nil_append] at same
      exact absurd (all b List.mem_cons_self) (stops' b (by simp [← same]))
    | cons b' front' =>
      rw [List.cons_append, List.cons_append, List.cons.injEq] at same
      obtain ⟨rfl, same⟩ := same
      rw [List.forall_mem_cons] at all all'
      obtain ⟨rfl, rest⟩ := ih all.2 all'.2 same
      exact ⟨rfl, rest⟩

theorem Run.stops {other : UInt8 → Bool} (run : Run accepts t)
    (disjoint : ∀ b, accepts b → ¬ other b) (rest : Bytes) : ∀ b ∈ (t ++ rest).head?, ¬ other b := by
  intro b first
  cases t with
  | nil => exact absurd rfl run.1
  | cons b' t =>
    obtain rfl : b' = b := by simpa using first
    exact disjoint b' (run.2 b' List.mem_cons_self)

theorem last_unique {b : UInt8} (absent : b ∉ back) (absent' : b ∉ back')
    (same : front ++ b :: back = front' ++ b :: back') : front = front' ∧ back = back' := by
  have reversed : back.reverse ++ b :: front.reverse = back'.reverse ++ b :: front'.reverse := by
    simpa using congrArg List.reverse same
  have other {bs : Bytes} (absent : b ∉ bs) : ∀ x ∈ bs.reverse, decide (x ≠ b) = true := by
    intro x member
    rw [List.mem_reverse] at member
    exact decide_eq_true fun equal => absent (equal ▸ member)
  obtain ⟨tails, heads⟩ := span_unique (other absent) (other absent') (by simp) (by simp) reversed
  exact ⟨List.reverse_injective (List.cons.inj heads).2, List.reverse_injective tails⟩

end Regexp

end Mcp.Lib
