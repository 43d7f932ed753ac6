import Mathlib.Data.List.Basic
import Mathlib.Data.List.Count
import Mathlib.Order.Basic

/-! # Byte strings -/

namespace Mcp.Lib

abbrev Bytes := List UInt8

namespace Bytes

instance : LinearOrder UInt8 where
  le_refl := UInt8.le_refl
  le_trans _ _ _ := UInt8.le_trans
  le_antisymm _ _ := UInt8.le_antisymm
  le_total := UInt8.le_total
  lt_iff_le_not_ge a b := by
    rw [UInt8.not_le]
    exact ⟨fun less => ⟨UInt8.le_of_lt less, less⟩, And.right⟩
  toDecidableLE := inferInstance

def ofString (s : String) : Bytes := s.toList.flatMap String.utf8EncodeChar

theorem ofString_ofList {chars : List Char} (ascii : ∀ c ∈ chars, c.val.toNat ≤ 127) :
    ofString (String.ofList chars) = chars.map fun c => UInt8.ofNat c.val.toNat := by
  induction chars with
  | nil => rfl
  | cons c chars ih =>
    rw [List.forall_mem_cons] at ascii
    have first : String.utf8EncodeChar c = [UInt8.ofNat c.val.toNat] := by
      unfold String.utf8EncodeChar
      exact if_pos ascii.1
    have others := ih ascii.2
    rw [ofString, String.toList_ofList] at others ⊢
    rw [List.flatMap_cons, first, others, List.map_cons, List.singleton_append]

def newline : UInt8 := 10

def carriageReturn : UInt8 := 13

@[simp] theorem newline_ne_carriageReturn : newline ≠ carriageReturn := by decide

def cut (b : UInt8) : Bytes → Option (Bytes × Bytes)
  | [] => none
  | x :: xs => if x = b then some ([], xs) else (cut b xs).map fun parts => (x :: parts.1, parts.2)

variable {b : UInt8} {before bs line : Bytes} {words : List Bytes}

theorem cut_append (absent : b ∉ before) (after : Bytes) : cut b (before ++ b :: after) = some (before, after) := by
  induction before with
  | nil => simp [cut]
  | cons x before ih =>
    rw [List.mem_cons, not_or] at absent
    simp [cut, Ne.symm absent.1, ih absent.2]

theorem cut_eq_none : cut b bs = none ↔ b ∉ bs := by
  induction bs with
  | nil => simp [cut]
  | cons x bs ih =>
    by_cases same : x = b
    · simp [cut, same]
    · simp [cut, same, Ne.symm same, ih]

theorem cut_eq_some {after : Bytes} : cut b bs = some (before, after) ↔ bs = before ++ b :: after ∧ b ∉ before := by
  constructor
  · intro found
    induction bs generalizing before with
    | nil => simp [cut] at found
    | cons x bs ih =>
      by_cases same : x = b
      · simp only [cut, if_pos same, Option.some.injEq, Prod.mk.injEq] at found
        obtain ⟨rfl, rfl⟩ := found
        simp [same]
      · simp only [cut, if_neg same] at found
        obtain ⟨⟨before', after'⟩, found', parts⟩ := Option.map_eq_some_iff.mp found
        cases parts
        obtain ⟨rfl, absent⟩ := ih found'
        exact ⟨rfl, by simp [Ne.symm same, absent]⟩
  · rintro ⟨rfl, absent⟩
    exact cut_append absent after

theorem cut_of_mem (member : b ∈ bs) : cut b bs = some (bs.takeWhile (· ≠ b), (bs.dropWhile (· ≠ b)).tail) := by
  induction bs with
  | nil => cases member
  | cons x bs ih =>
    by_cases same : x = b
    · simp [cut, same]
    · have within : b ∈ bs := by simpa [Ne.symm same] using member
      simp [cut, same, ih within]

def spaces : List Bytes :=
  [[9], [10], [11], [12], [13], [32], [0xc2, 0x85], [0xc2, 0xa0], [0xe1, 0x9a, 0x80],
    [0xe2, 0x80, 0x80], [0xe2, 0x80, 0x81], [0xe2, 0x80, 0x82], [0xe2, 0x80, 0x83], [0xe2, 0x80, 0x84],
    [0xe2, 0x80, 0x85], [0xe2, 0x80, 0x86], [0xe2, 0x80, 0x87], [0xe2, 0x80, 0x88], [0xe2, 0x80, 0x89],
    [0xe2, 0x80, 0x8a], [0xe2, 0x80, 0xa8], [0xe2, 0x80, 0xa9], [0xe2, 0x80, 0xaf], [0xe2, 0x81, 0x9f],
    [0xe3, 0x80, 0x80]]

def strip (words : List Bytes) : Nat → Bytes → Bytes
  | 0, bs => bs
  | n + 1, bs => match words.find? (·.isPrefixOf bs) with
      | some word => strip words n (bs.drop word.length)
      | none => bs

def trimLeft (bs : Bytes) : Bytes := strip spaces bs.length bs

def trimRight (bs : Bytes) : Bytes := (strip (spaces.map List.reverse) bs.length bs.reverse).reverse

def trimSpace (bs : Bytes) : Bytes := trimRight (trimLeft bs)

def Trimmed (bs : Bytes) : Prop := ∀ space ∈ spaces, ¬ space <+: bs ∧ ¬ space <:+ bs

theorem strip_of_absent (absent : ∀ word ∈ words, ¬ word <+: bs) (n : Nat) : strip words n bs = bs := by
  cases n with
  | zero => rfl
  | succ n =>
    have missing : words.find? (·.isPrefixOf bs) = none := by
      simpa [List.find?_eq_none] using absent
    simp only [strip, missing]

theorem strip_suffix (words : List Bytes) (n : Nat) (bs : Bytes) : strip words n bs <:+ bs := by
  induction n generalizing bs with
  | zero => exact List.suffix_rfl
  | succ n ih =>
    unfold strip
    split
    · exact (ih _).trans (List.drop_suffix _ _)
    · exact List.suffix_rfl

theorem trimSpace_of_trimmed (trimmed : Trimmed bs) : trimSpace bs = bs := by
  have left : trimLeft bs = bs := strip_of_absent (fun space member => (trimmed space member).1) _
  have right : trimRight bs = bs := by
    unfold trimRight
    rw [strip_of_absent, List.reverse_reverse]
    intro word member
    obtain ⟨space, known, rfl⟩ := List.mem_map.mp member
    simpa using (trimmed space known).2
  rw [trimSpace, left, right]

theorem trimmed_of_disjoint (disjoint : ∀ space ∈ spaces, ∃ b ∈ space, b ∉ bs) : Trimmed bs := by
  intro space member
  obtain ⟨b, within, absent⟩ := disjoint space member
  exact ⟨fun starts => absent (starts.subset within), fun ends => absent (ends.subset within)⟩

theorem trimSpace_cons (bs : Bytes) : trimSpace (32 :: bs) = trimSpace bs := rfl

theorem trimSpace_space (trimmed : Trimmed bs) : trimSpace (32 :: bs) = bs := by
  rw [trimSpace_cons]
  exact trimSpace_of_trimmed trimmed

theorem trimRight_leading (bs : Bytes) : trimRight bs <+: bs := by
  rw [← List.reverse_suffix, trimRight, List.reverse_reverse]
  exact strip_suffix _ _ _

theorem mem_of_mem_trimSpace (member : b ∈ trimSpace bs) : b ∈ bs := by
  have right : b ∈ (trimLeft bs).reverse := (strip_suffix _ _ _).subset (List.mem_reverse.mp member)
  exact (strip_suffix _ _ _).subset (List.mem_reverse.mp right)

theorem length_trimSpace_le (bs : Bytes) : (trimSpace bs).length ≤ bs.length := by
  have left : (trimLeft bs).length ≤ bs.length := (strip_suffix _ _ _).length_le
  have right : (trimRight (trimLeft bs)).length ≤ (trimLeft bs).length := by
    rw [trimRight, List.length_reverse]
    simpa using (strip_suffix (spaces.map List.reverse) _ (trimLeft bs).reverse).length_le
  exact Nat.le_trans right left

theorem infix_trimSpace (bs : Bytes) : trimSpace bs <:+: bs :=
  (trimRight_leading _).isInfix.trans (strip_suffix _ _ _).isInfix

theorem strip_exhausted (nonempty : [] ∉ words) {n : Nat} (enough : bs.length ≤ n) :
    ∀ word ∈ words, ¬ word <+: strip words n bs := by
  induction n generalizing bs with
  | zero =>
    intro word known starts
    obtain rfl : bs = [] := List.eq_nil_of_length_eq_zero (Nat.le_zero.mp enough)
    exact nonempty (List.prefix_nil.mp starts ▸ known)
  | succ n ih =>
    unfold strip
    split
    · rename_i word found
      have known : word ∈ words := List.mem_of_find?_eq_some found
      have positive : 0 < word.length := List.length_pos_of_ne_nil fun empty => nonempty (empty ▸ known)
      apply ih
      rw [List.length_drop]
      omega
    · rename_i missing
      simpa [List.find?_eq_none] using missing

theorem trimmed_trimSpace (bs : Bytes) : Trimmed (trimSpace bs) := by
  intro space known
  constructor
  · intro starts
    have left : ¬ space <+: trimLeft bs := strip_exhausted (by decide) (Nat.le_refl _) space known
    exact left (starts.trans (trimRight_leading _))
  · intro ends
    have reversed : [] ∉ spaces.map List.reverse := by decide
    have enough : (trimLeft bs).reverse.length ≤ (trimLeft bs).length := Nat.le_of_eq List.length_reverse
    have right := strip_exhausted reversed enough space.reverse (List.mem_map_of_mem known)
    apply right
    rw [← List.reverse_suffix, List.reverse_reverse]
    exact ends

theorem trimSpace_leading (solid : ∀ space ∈ spaces, ¬ space <+: bs) : trimSpace bs <+: bs := by
  rw [trimSpace, trimLeft, strip_of_absent solid]
  exact trimRight_leading bs

theorem trimSpace_sublist (bs : Bytes) : (trimSpace bs).Sublist bs :=
  (trimRight_leading _).sublist.trans (strip_suffix _ _ _).sublist

theorem mem_strip (absent : ∀ word ∈ words, b ∉ word) (n : Nat) (member : b ∈ bs) : b ∈ strip words n bs := by
  induction n generalizing bs with
  | zero => exact member
  | succ n ih =>
    unfold strip
    split
    · rename_i word found
      have known : word ∈ words := List.mem_of_find?_eq_some found
      have starts := List.find?_some found
      obtain ⟨rest, rfl⟩ := List.isPrefixOf_iff_prefix.mp starts
      apply ih
      rw [List.drop_left]
      exact (List.mem_append.mp member).resolve_left (absent word known)
    · exact member

theorem mem_trimSpace (absent : ∀ space ∈ spaces, b ∉ space) (member : b ∈ bs) : b ∈ trimSpace bs := by
  have left : b ∈ trimLeft bs := mem_strip absent _ member
  apply List.mem_reverse.mpr
  apply mem_strip _ _ (List.mem_reverse.mpr left)
  intro word known
  obtain ⟨space, member, rfl⟩ := List.mem_map.mp known
  rw [List.mem_reverse]
  exact absent space member

theorem trimmed_of_ends {first last : UInt8} (starts : bs.head? = some first)
    (ends : bs.getLast? = some last) (known : ∀ space ∈ spaces, space.head? ≠ some first ∧ space.getLast? ≠ some last) :
    Trimmed bs := by
  intro space member
  have nonempty : space ≠ [] := by
    rintro rfl
    revert member
    decide
  constructor
  · rintro ⟨rest, rfl⟩
    rw [List.head?_append_of_ne_nil _ nonempty] at starts
    exact (known space member).1 starts
  · rintro ⟨rest, rfl⟩
    rw [List.getLast?_append_of_ne_nil _ nonempty] at ends
    exact (known space member).2 ends

theorem trimSpace_blank (blank : ∀ b ∈ bs, [b] ∈ spaces) : trimSpace bs = [] := by
  have stripped (n : Nat) : ∀ bs : Bytes, bs.length ≤ n → (∀ b ∈ bs, [b] ∈ spaces) → strip spaces n bs = [] := by
    induction n with
    | zero => exact fun bs short _ => List.eq_nil_of_length_eq_zero (Nat.le_zero.mp short)
    | succ n ih =>
      intro bs short blank
      cases bs with
      | nil => exact strip_of_absent (by decide) _
      | cons b bs =>
        have found : (spaces.find? (·.isPrefixOf (b :: bs))).isSome :=
          List.find?_isSome.mpr ⟨[b], blank b List.mem_cons_self, by simp⟩
        obtain ⟨word, found⟩ := Option.isSome_iff_exists.mp found
        have known : word ∈ spaces := List.mem_of_find?_eq_some found
        have nonempty : word ≠ [] := by
          rintro rfl
          revert known
          decide
        have positive : 0 < word.length := List.length_pos_iff.mpr nonempty
        simp only [strip, found]
        apply ih
        · simp only [List.length_drop, List.length_cons] at short ⊢
          omega
        · exact fun b member => blank b (List.mem_of_mem_drop member)
  have left : trimLeft bs = [] := stripped _ bs (Nat.le_refl _) blank
  rw [trimSpace, left]
  rfl

def dropCR (line : Bytes) : Bytes := if line.getLast? = some carriageReturn then line.dropLast else line

def linesFrom (current : Bytes) : Bytes → List Bytes
  | [] => if current = [] then [] else [dropCR current]
  | b :: bs => if b = newline then dropCR current :: linesFrom [] bs else linesFrom (current ++ [b]) bs

def lines (bs : Bytes) : List Bytes := linesFrom [] bs

theorem linesFrom_append (whole : newline ∉ line) (current rest : Bytes) :
    linesFrom current (line ++ newline :: rest) = dropCR (current ++ line) :: lines rest := by
  induction line generalizing current with
  | nil => simp [linesFrom, lines]
  | cons b line ih =>
    rw [List.mem_cons, not_or] at whole
    simp [linesFrom, Ne.symm whole.1, ih whole.2]

theorem linesFrom_last (whole : newline ∉ line) (current : Bytes) :
    linesFrom current line = if current ++ line = [] then [] else [dropCR (current ++ line)] := by
  induction line generalizing current with
  | nil => simp [linesFrom]
  | cons b line ih =>
    rw [List.mem_cons, not_or] at whole
    simp [linesFrom, Ne.symm whole.1, ih whole.2]

@[simp] theorem lines_nil : lines [] = [] := rfl

theorem lines_append (whole : newline ∉ line) (rest : Bytes) :
    lines (line ++ newline :: rest) = dropCR line :: lines rest :=
  linesFrom_append whole [] rest

theorem lines_last (whole : newline ∉ line) (nonempty : line ≠ []) : lines line = [dropCR line] := by
  rw [lines, linesFrom_last whole, List.nil_append, if_neg nonempty]

theorem dropCR_leading (line : Bytes) : dropCR line <+: line := by
  unfold dropCR
  split
  · exact List.dropLast_prefix line
  · exact List.prefix_rfl

theorem dropCR_append (before : Bytes) (nonempty : line ≠ []) : dropCR (before ++ line) = before ++ dropCR line := by
  unfold dropCR
  rw [List.getLast?_append_of_ne_nil _ nonempty, List.dropLast_append_of_ne_nil nonempty]
  split <;> rfl

theorem dropCR_of_getLast (plain : line.getLast? ≠ some carriageReturn) : dropCR line = line :=
  if_neg plain

@[simp] theorem dropCR_concat (line : Bytes) : dropCR (line ++ [carriageReturn]) = line := by
  simp [dropCR]

end Bytes

end Mcp.Lib
