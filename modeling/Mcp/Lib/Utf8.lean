import Mcp.Lib.Bytes

/-! # Strings that need not be valid UTF-8 -/

namespace Mcp.Lib.Utf8
open Bytes

def replacement : Char := '�'

def runesFrom : Nat → Bytes → List Char
  | 0, _ => []
  | n + 1, bytes =>
    if bytes = [] then []
    else match bytes.toByteArray.utf8DecodeChar? 0 with
      | some c => c :: runesFrom n (bytes.drop c.utf8Size)
      | none => replacement :: runesFrom n (bytes.drop 1)

def toValid (bytes : Bytes) : String := String.ofList (runesFrom bytes.length bytes)

inductive Rune where
  | char (c : Char)
  | bad (b : UInt8)

namespace Rune

def value : Rune → Char
  | char c => c
  | bad _ => replacement

def bytes : Rune → Bytes
  | char c => String.utf8EncodeChar c
  | bad b => [b]

end Rune

def decode? (bs : Bytes) : Option Char := bs.toByteArray.utf8DecodeChar? 0

def runes : Bytes → List Rune
  | [] => []
  | b :: rest => match decode? (b :: rest) with
    | some c => .char c :: runes (rest.drop (c.utf8Size - 1))
    | none => .bad b :: runes rest
termination_by bs => bs.length

def bytesOf (rs : List Rune) : Bytes := rs.flatMap Rune.bytes

def encode (cs : List Char) : Bytes := cs.flatMap String.utf8EncodeChar

def Proper : List Rune → Prop
  | [] => True
  | .char _ :: rest => Proper rest
  | .bad b :: rest => decode? (b :: bytesOf rest) = none ∧ Proper rest

variable {bs : Bytes} {rs as : List Rune} {c : Char}

@[simp] theorem bytesOf_append (as rs : List Rune) : bytesOf (as ++ rs) = bytesOf as ++ bytesOf rs :=
  List.flatMap_append

@[simp] theorem bytesOf_chars (cs : List Char) : bytesOf (cs.map .char) = encode cs := by
  rw [bytesOf, List.flatMap_map]
  rfl

theorem decode?_encode_append (c : Char) (bs : Bytes) : decode? (String.utf8EncodeChar c ++ bs) = some c := by
  rw [decode?, List.toByteArray_append]
  exact ByteArray.utf8DecodeChar?_utf8EncodeChar_append

theorem decode?_eq_some (found : decode? bs = some c) : ∃ rest, bs = String.utf8EncodeChar c ++ rest := by
  obtain ⟨rest, same⟩ := ByteArray.exists_of_utf8DecodeChar?_eq_some found
  refine ⟨rest.data.toList, ?_⟩
  have lists := congrArg (·.data.toList) same
  simpa using lists

theorem decode?_eq_none_of_append {as bs : Bytes} (absent : decode? (as ++ bs) = none) : decode? as = none := by
  cases found : decode? as with
  | none => rfl
  | some c =>
    obtain ⟨rest, rfl⟩ := decode?_eq_some found
    rw [List.append_assoc, decode?_encode_append] at absent
    cases absent

theorem runes_encode_append (c : Char) (bs : Bytes) : runes (String.utf8EncodeChar c ++ bs) = .char c :: runes bs := by
  have found := decode?_encode_append c bs
  have size := String.length_utf8EncodeChar c
  cases bytes : String.utf8EncodeChar c with
  | nil => exact absurd bytes String.utf8EncodeChar_ne_nil
  | cons b tail =>
    rw [bytes] at found size
    rw [List.cons_append] at found ⊢
    rw [runes, found]
    simp [← size]

theorem runes_bytesOf (proper : Proper rs) : runes (bytesOf rs) = rs := by
  induction rs with
  | nil => simp [bytesOf, runes]
  | cons r rest ih =>
    cases r with
    | char c => exact (runes_encode_append c _).trans (congrArg _ (ih proper))
    | bad b =>
      show runes (b :: bytesOf rest) = _
      rw [runes, proper.1]
      exact congrArg _ (ih proper.2)

theorem runes_spec (bs : Bytes) : bytesOf (runes bs) = bs ∧ Proper (runes bs) := by
  induction bs using runes.induct with
  | case1 => simp [runes, bytesOf, Proper]
  | case2 b rest c found ih =>
    obtain ⟨tail, same⟩ := decode?_eq_some found
    have size := String.length_utf8EncodeChar c
    have left : rest.drop (c.utf8Size - 1) = tail := by
      have dropped := congrArg (List.drop c.utf8Size) same
      rw [List.drop_left' size] at dropped
      obtain ⟨n, eq⟩ := Nat.exists_eq_succ_of_ne_zero (Nat.ne_of_gt c.utf8Size_pos)
      rw [eq, List.drop_succ_cons] at dropped
      rw [eq, Nat.succ_sub_one, dropped]
    rw [left] at ih
    rw [same, runes_encode_append]
    exact ⟨congrArg (String.utf8EncodeChar c ++ ·) ih.1, ih.2⟩
  | case3 b rest absent ih =>
    rw [runes, absent]
    refine ⟨congrArg (b :: ·) ih.1, ?_, ih.2⟩
    rw [ih.1, absent]

theorem Proper.of_append (proper : Proper (as ++ rs)) : Proper as := by
  induction as with
  | nil => trivial
  | cons a as ih =>
    cases a with
    | char c => exact ih proper
    | bad b =>
      rw [List.cons_append, Proper, bytesOf_append, ← List.cons_append] at proper
      exact ⟨decode?_eq_none_of_append proper.1, ih proper.2⟩

theorem proper_chars (cs : List Char) : Proper (cs.map .char) := by
  induction cs with
  | nil => trivial
  | cons c cs ih => exact ih

end Mcp.Lib.Utf8
