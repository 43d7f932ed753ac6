import Mathlib.Data.List.Infix
import Mcp.Lib.Bytes

/-! # Splitting and replacing -/

namespace Mcp.Lib.Bytes

def consHead (b : UInt8) : List Bytes → List Bytes
  | [] => [[b]]
  | piece :: pieces => (b :: piece) :: pieces

-- The first argument counts the bytes of a separator that are still to be skipped.
def splitFrom (sep : Bytes) : Nat → Bytes → List Bytes
  | _, [] => [[]]
  | 0, b :: rest =>
    if sep.isPrefixOf (b :: rest) then [] :: splitFrom sep (sep.length - 1) rest
    else consHead b (splitFrom sep 0 rest)
  | skip + 1, _ :: rest => splitFrom sep skip rest

def split (sep s : Bytes) : List Bytes := splitFrom sep 0 s

def replaceAll (old new s : Bytes) : Bytes := new.intercalate (split old s)

variable {sep old new s : Bytes} {b : UInt8}

theorem splitFrom_ne_nil (skip : Nat) (s : Bytes) : splitFrom sep skip s ≠ [] := by
  induction s generalizing skip with
  | nil => simp [splitFrom]
  | cons b rest ih =>
    cases skip with
    | zero =>
      unfold splitFrom
      split_ifs
      · simp
      · cases splitFrom sep 0 rest <;> simp [consHead]
    | succ skip => exact ih skip

theorem split_ne_nil (sep s : Bytes) : split sep s ≠ [] := splitFrom_ne_nil 0 s

theorem splitFrom_eq (skip : Nat) (s : Bytes) : splitFrom sep skip s = split sep (s.drop skip) := by
  induction s generalizing skip with
  | nil =>
    rw [List.drop_nil]
    rfl
  | cons b rest ih =>
    cases skip with
    | zero => rfl
    | succ skip => exact ih skip

theorem split_cons_of_starts (starts : sep <+: b :: s) :
    split sep (b :: s) = [] :: split sep (s.drop (sep.length - 1)) := by
  rw [← splitFrom_eq, split, splitFrom, if_pos (List.isPrefixOf_iff_prefix.mpr starts)]

theorem split_cons_of_not_starts (other : ¬ sep <+: b :: s) : split sep (b :: s) = consHead b (split sep s) := by
  rw [split, splitFrom, if_neg (fun starts => other (List.isPrefixOf_iff_prefix.mp starts))]
  rfl

theorem intercalate_consHead {pieces : List Bytes} (some : pieces ≠ []) :
    sep.intercalate (consHead b pieces) = b :: sep.intercalate pieces := by
  cases pieces with
  | nil => exact absurd rfl some
  | cons piece pieces => cases pieces <;> simp [consHead, List.intercalate]

theorem replaceAll_cons_of_not_starts (other : ¬ old <+: b :: s) :
    replaceAll old new (b :: s) = b :: replaceAll old new s := by
  rw [replaceAll, split_cons_of_not_starts other, intercalate_consHead (split_ne_nil _ _)]
  rfl

theorem replaceAll_cons_of_starts (starts : old <+: b :: s) :
    replaceAll old new (b :: s) = new ++ replaceAll old new (s.drop (old.length - 1)) := by
  rw [replaceAll, split_cons_of_starts starts, List.intercalate_cons_of_ne_nil (split_ne_nil _ _), List.nil_append]
  rfl

theorem replaceAll_append_left (some : old ≠ []) (s : Bytes) :
    replaceAll old new (old ++ s) = new ++ replaceAll old new s := by
  cases old with
  | nil => exact absurd rfl some
  | cons b old =>
    rw [List.cons_append, replaceAll_cons_of_starts (List.cons_prefix_cons.mpr ⟨rfl, List.prefix_append old s⟩)]
    simp

theorem replaceAll_of_absent (absent : ¬ old <:+: s) : replaceAll old new s = s := by
  induction s with
  | nil => rfl
  | cons b s ih =>
    rw [replaceAll_cons_of_not_starts fun starts => absent starts.isInfix,
      ih fun inside => absent (inside.trans (List.suffix_cons b s).isInfix)]

def replaceEach (order : List (Bytes × Bytes)) (s : Bytes) : Bytes :=
  order.foldl (fun s pair => replaceAll pair.1 pair.2 s) s

theorem replaceEach_nil (order : List (Bytes × Bytes)) : replaceEach order [] = [] := by
  induction order with
  | nil => rfl
  | cons pair order ih => exact ih

theorem replaceEach_cons {order : List (Bytes × Bytes)} (other : ∀ pair ∈ order, ∀ s, ¬ pair.1 <+: b :: s) (s : Bytes) :
    replaceEach order (b :: s) = b :: replaceEach order s := by
  induction order generalizing s with
  | nil => rfl
  | cons pair order ih =>
    rw [List.forall_mem_cons] at other
    have first : replaceAll pair.1 pair.2 (b :: s) = _ := replaceAll_cons_of_not_starts (other.1 s)
    rw [replaceEach, List.foldl_cons, first]
    exact ih other.2 _

/-! ## Piece by piece -/

/-- The text `p` reaches over the place where `left` and `right` meet. -/
def Joins (p left right : Bytes) : Prop := ∃ k < p.length, 0 < k ∧ p.take k <:+ left ∧ p.drop k <+: right

instance (p left right : Bytes) : Decidable (Joins p left right) :=
  inferInstanceAs (Decidable (∃ k < p.length, 0 < k ∧ p.take k <:+ left ∧ p.drop k <+: right))

def Apart (ps pieces : List Bytes) : Prop :=
  ∀ i < pieces.length, ∀ p ∈ ps, ¬ Joins p (pieces.take i).flatten (pieces.drop i).flatten

instance (ps pieces : List Bytes) : Decidable (Apart ps pieces) :=
  inferInstanceAs (Decidable (∀ i < pieces.length, ∀ p ∈ ps, ¬ Joins p (pieces.take i).flatten (pieces.drop i).flatten))

variable {p left right piece : Bytes} {ps pieces : List Bytes}

theorem Joins.append_left (joins : Joins p left right) (front : Bytes) : Joins p (front ++ left) right := by
  obtain ⟨k, short, some, ends, starts⟩ := joins
  exact ⟨k, short, some, ends.trans (List.suffix_append front left), starts⟩

theorem joins_of_starts (starts : p <+: left ++ right) (some : left ≠ []) (beyond : ¬ p <+: left) :
    Joins p left right := by
  rcases List.prefix_or_prefix_of_prefix starts (List.prefix_append left right) with within | ⟨rest, rfl⟩
  · exact absurd within beyond
  · rw [List.prefix_append_right_inj] at starts
    have more : rest ≠ [] := by
      rintro rfl
      exact beyond (by simp)
    refine ⟨left.length, ?_, List.length_pos_of_ne_nil some, by simp, by simpa using starts⟩
    have := List.length_pos_of_ne_nil more
    simp only [List.length_append]
    omega

theorem infix_append_cases (inside : p <:+: left ++ right) : p <:+: left ∨ p <:+: right ∨ Joins p left right := by
  induction left with
  | nil => exact .inr (.inl inside)
  | cons b left ih =>
    rw [List.cons_append, List.infix_cons_iff] at inside
    rcases inside with starts | inside
    · by_cases within : p <+: b :: left
      · exact .inl within.isInfix
      · exact .inr (.inr (joins_of_starts starts (List.cons_ne_nil _ _) within))
    · rcases ih inside with here | there | joins
      · exact .inl (here.trans (List.suffix_cons b left).isInfix)
      · exact .inr (.inl there)
      · exact .inr (.inr (joins.append_left [b]))

-- by induction on the length of the left text: the occurrence that is replaced first ends within it
theorem replaceAll_append (some : old ≠ []) (apart : ¬ Joins old left right) :
    replaceAll old new (left ++ right) = replaceAll old new left ++ replaceAll old new right := by
  induction size : left.length using Nat.strong_induction_on generalizing left with
  | _ n ih =>
    cases left with
    | nil => rfl
    | cons b left =>
      subst size
      by_cases starts : old <+: b :: left
      · obtain ⟨rest, joined⟩ := starts
        have shorter : rest.length < (b :: left).length := by
          have := List.length_pos_of_ne_nil some
          rw [← joined, List.length_append]
          omega
        rw [← joined] at apart ⊢
        rw [List.append_assoc, replaceAll_append_left some, replaceAll_append_left some, List.append_assoc,
          ih rest.length shorter (fun joins => apart (joins.append_left old)) rfl]
      · have other : ¬ old <+: b :: (left ++ right) := fun starts' =>
          apart (joins_of_starts starts' (List.cons_ne_nil _ _) starts)
        rw [List.cons_append, replaceAll_cons_of_not_starts other, replaceAll_cons_of_not_starts starts,
          ih left.length (Nat.lt_succ_self _) (fun joins => apart (joins.append_left [b])) rfl]
        rfl

theorem Apart.tail (apart : Apart ps (piece :: pieces)) : Apart ps pieces := by
  intro i short p known joins
  refine apart (i + 1) (by simpa using short) p known ?_
  simpa using joins.append_left piece

theorem Apart.not_joins (apart : Apart ps (piece :: pieces)) (known : p ∈ ps) : ¬ Joins p piece pieces.flatten := by
  intro joins
  cases pieces with
  | nil =>
    obtain ⟨k, short, -, -, starts⟩ := joins
    have := starts.length_le
    simp at this
    omega
  | cons next pieces => exact apart 1 (by simp) p known (by simpa using joins)

theorem replaceAll_flatten (some : old ≠ []) (known : old ∈ ps) (apart : Apart ps pieces) :
    replaceAll old new pieces.flatten = (pieces.map (replaceAll old new)).flatten := by
  induction pieces with
  | nil => rfl
  | cons piece pieces ih =>
    rw [List.flatten_cons, replaceAll_append some (apart.not_joins known), ih apart.tail, List.map_cons,
      List.flatten_cons]

theorem exists_mem_of_infix_flatten (some : p ≠ []) (known : p ∈ ps) (apart : Apart ps pieces)
    (inside : p <:+: pieces.flatten) : ∃ piece ∈ pieces, p <:+: piece := by
  induction pieces with
  | nil => exact absurd (List.infix_nil.mp inside) some
  | cons piece pieces ih =>
    rw [List.flatten_cons] at inside
    rcases infix_append_cases inside with here | there | joins
    · exact ⟨piece, List.mem_cons_self, here⟩
    · obtain ⟨other, member, within⟩ := ih apart.tail there
      exact ⟨other, List.mem_cons_of_mem _ member, within⟩
    · exact absurd joins (apart.not_joins known)

end Mcp.Lib.Bytes
