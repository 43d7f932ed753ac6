import Mathlib.Data.List.Find
import Mcp.Lib.Replace

/-! # Splitting at several separators -/

namespace Mcp.Lib.Bytes

-- The first number counts the bytes of a separator that are still to be skipped.
def splitAnyFrom (seps : List Bytes) : Nat → Bytes → List Bytes
  | _, [] => [[]]
  | 0, b :: rest => match seps.find? (·.isPrefixOf (b :: rest)) with
      | some sep => [] :: splitAnyFrom seps (sep.length - 1) rest
      | none => consHead b (splitAnyFrom seps 0 rest)
  | skip + 1, _ :: rest => splitAnyFrom seps skip rest

def splitAny (seps : List Bytes) (s : Bytes) : List Bytes := splitAnyFrom seps 0 s

def fields (s : Bytes) : List Bytes := (splitAny spaces s).filter (· ≠ [])

variable {seps : List Bytes} {sep s word : Bytes} {b : UInt8}

theorem splitAnyFrom_eq (skip : Nat) (s : Bytes) : splitAnyFrom seps skip s = splitAny seps (s.drop skip) := by
  induction s generalizing skip with
  | nil =>
    rw [List.drop_nil, splitAny]
    cases skip <;> rfl
  | cons b rest ih =>
    cases skip with
    | zero => rfl
    | succ skip => exact ih skip

theorem splitAny_cons_of_found (found : seps.find? (·.isPrefixOf (b :: s)) = some sep) :
    splitAny seps (b :: s) = [] :: splitAny seps (s.drop (sep.length - 1)) := by
  rw [← splitAnyFrom_eq, splitAny, splitAnyFrom]
  simp only [found]

theorem splitAny_cons_of_missing (missing : seps.find? (·.isPrefixOf (b :: s)) = none) :
    splitAny seps (b :: s) = consHead b (splitAny seps s) := by
  rw [splitAny, splitAnyFrom]
  simp only [missing]
  rfl

theorem of_find? (found : seps.find? (·.isPrefixOf s) = some sep) : sep ∈ seps ∧ sep <+: s := by
  have starts := List.find?_some found
  exact ⟨List.mem_of_find?_eq_some found, List.isPrefixOf_iff_prefix.mp starts⟩

theorem splitAny_induction {P : Bytes → Prop} (seps : List Bytes) (nil : P [])
    (found : ∀ b s sep, seps.find? (·.isPrefixOf (b :: s)) = some sep → P (s.drop (sep.length - 1)) → P (b :: s))
    (missing : ∀ b s, seps.find? (·.isPrefixOf (b :: s)) = none → P s → P (b :: s)) (s : Bytes) : P s := by
  have bounded (n : Nat) : ∀ s : Bytes, s.length ≤ n → P s := by
    induction n with
    | zero =>
      intro s short
      rw [List.eq_nil_of_length_eq_zero (Nat.le_zero.mp short)]
      exact nil
    | succ n ih =>
      intro s short
      cases s with
      | nil => exact nil
      | cons b s =>
        rw [List.length_cons] at short
        cases here : seps.find? (·.isPrefixOf (b :: s)) with
        | none => exact missing b s here (ih s (by omega))
        | some sep =>
          refine found b s sep here (ih _ ?_)
          rw [List.length_drop]
          omega
  exact bounded s.length s (Nat.le_refl _)

theorem drop_of_starts (sep : Bytes) (nonempty : sep ≠ []) (starts : sep <+: b :: s) :
    b :: s = sep ++ s.drop (sep.length - 1) := by
  obtain ⟨rest, joined⟩ := starts
  cases sep with
  | nil => exact absurd rfl nonempty
  | cons c sep =>
    simp only [List.cons_append, List.cons.injEq] at joined
    obtain ⟨rfl, rfl⟩ := joined
    simp

theorem splitAny_pieces (nonempty : [] ∉ seps) (s : Bytes) :
    ∃ piece pieces, splitAny seps s = piece :: pieces ∧ piece <+: s ∧
      ∀ later ∈ pieces, ∃ sep ∈ seps, sep ++ later <:+: s := by
  induction s using splitAny_induction seps with
  | nil => exact ⟨[], [], rfl, List.prefix_rfl, by simp⟩
  | found b s sep found ih =>
    obtain ⟨piece, pieces, parts, leads, follow⟩ := ih
    obtain ⟨known, starts⟩ := of_find? found
    have whole := drop_of_starts sep (fun empty => nonempty (empty ▸ known)) starts
    refine ⟨[], piece :: pieces, by rw [splitAny_cons_of_found found, parts], List.nil_prefix, ?_⟩
    rw [List.forall_mem_cons]
    constructor
    · refine ⟨sep, known, ?_⟩
      rw [whole]
      exact ((List.prefix_append_right_inj sep).mpr leads).isInfix
    · intro later member
      obtain ⟨sep', known', within⟩ := follow later member
      refine ⟨sep', known', within.trans ?_⟩
      rw [whole]
      exact (List.suffix_append _ _).isInfix
  | missing b s missing ih =>
    obtain ⟨piece, pieces, parts, leads, follow⟩ := ih
    refine ⟨b :: piece, pieces, by rw [splitAny_cons_of_missing missing, parts, consHead], ?_, ?_⟩
    · exact List.cons_prefix_cons.mpr ⟨rfl, leads⟩
    · intro later member
      obtain ⟨sep, known, within⟩ := follow later member
      exact ⟨sep, known, within.trans (List.suffix_cons b s).isInfix⟩

theorem infix_of_mem_splitAny (nonempty : [] ∉ seps) {piece : Bytes} (member : piece ∈ splitAny seps s) :
    piece <:+: s := by
  obtain ⟨first, pieces, parts, leads, follow⟩ := splitAny_pieces nonempty s
  rw [parts, List.mem_cons] at member
  rcases member with rfl | member
  · exact leads.isInfix
  · obtain ⟨sep, -, within⟩ := follow piece member
    exact (List.suffix_append sep piece).isInfix.trans within

theorem nil_notMem_spaces : [] ∉ spaces := by decide

theorem infix_of_mem_fields (member : word ∈ fields s) : word <:+: s :=
  infix_of_mem_splitAny nil_notMem_spaces (List.mem_filter.mp member).1

theorem starts_of_mem_fields (member : word ∈ fields s) : word <+: s ∨ ∃ space ∈ spaces, space ++ word <:+: s := by
  obtain ⟨first, pieces, parts, leads, follow⟩ := splitAny_pieces nil_notMem_spaces s
  have piece : word ∈ splitAny spaces s := (List.mem_filter.mp member).1
  rw [parts, List.mem_cons] at piece
  rcases piece with rfl | later
  · exact .inl leads
  · exact .inr (follow word later)

theorem strip_cases (words : List Bytes) (n : Nat) (s : Bytes) :
    strip words n s = s ∨ ∃ word ∈ words, word ++ strip words n s <:+ s := by
  induction n generalizing s with
  | zero => exact .inl rfl
  | succ n ih =>
    unfold strip
    split
    · rename_i word found
      obtain ⟨known, rest, rfl⟩ := of_find? found
      rw [List.drop_left]
      right
      rcases ih rest with same | ⟨last, known', ends⟩
      · exact ⟨word, known, by rw [same]⟩
      · exact ⟨last, known', ends.trans (List.suffix_append word rest)⟩
    · exact .inl rfl

theorem starts_of_mem_fields_trimSpace (member : word ∈ fields (trimSpace s)) :
    word <+: s ∨ ∃ space ∈ spaces, space ++ word <:+: s := by
  rcases starts_of_mem_fields member with leads | ⟨space, known, follows⟩
  · have starts : word <+: trimLeft s := leads.trans (trimRight_leading _)
    rcases strip_cases spaces s.length s with same | ⟨space, known, ends⟩
    · rw [trimLeft, same] at starts
      exact .inl starts
    · exact .inr ⟨space, known, ((List.prefix_append_right_inj space).mpr starts).isInfix.trans ends.isInfix⟩
  · exact .inr ⟨space, known, follows.trans (infix_trimSpace s)⟩

end Mcp.Lib.Bytes
