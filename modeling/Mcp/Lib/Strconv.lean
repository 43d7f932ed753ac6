import Mathlib.Algebra.Group.Int.Defs
import Mathlib.Algebra.Group.Nat.Defs
import Mathlib.Data.List.Basic
import Mathlib.Data.Int.Order.Basic

/-! # 64-bit integers and their decimal text -/

namespace Mcp.Lib

def minInt : Int := -2 ^ 63

def maxInt : Int := 2 ^ 63 - 1

def wrap (n : Int) : Int := n.bmod (2 ^ 64)

variable {n : Int} {s : List Char}

theorem wrap_of_fits (low : minInt ≤ n) (high : n ≤ maxInt) : wrap n = n := by
  unfold wrap minInt maxInt at *
  apply Int.bmod_eq_of_le_mul_two <;> omega

theorem wrap_succ_maxInt : wrap (maxInt + 1) = minInt := by decide

def parseDigits (s : List Char) : Option Nat :=
  if s ≠ [] ∧ s.all Char.isDigit then some (Nat.ofDigitChars 10 s 0) else none

def fit (n : Int) : Option Int := if minInt ≤ n ∧ n ≤ maxInt then some n else none

def parseInt : List Char → Option Int
  | '-' :: digits => (parseDigits digits).bind fun n => fit (-n)
  | '+' :: digits => (parseDigits digits).bind fun n => fit n
  | digits => (parseDigits digits).bind fun n => fit n

def formatInt : Int → List Char
  | .ofNat n => Nat.toDigits 10 n
  | .negSucc n => '-' :: Nat.toDigits 10 (n + 1)

theorem fit_eq_some {k : Int} : fit n = some k ↔ n = k ∧ minInt ≤ k ∧ k ≤ maxInt := by
  unfold fit
  split_ifs with fits
  · constructor
    · rintro ⟨⟩
      exact ⟨rfl, fits⟩
    · rintro ⟨rfl, _⟩
      rfl
  · constructor
    · rintro ⟨⟩
    · rintro ⟨rfl, range⟩
      exact absurd range fits

theorem parseInt_range (parsed : parseInt s = some n) : minInt ≤ n ∧ n ≤ maxInt := by
  unfold parseInt at parsed
  split at parsed <;>
    · obtain ⟨k, -, fits⟩ := Option.bind_eq_some_iff.mp parsed
      exact (fit_eq_some.mp fits).2

theorem digit_range {c : Char} (digit : c.isDigit) : 48 ≤ c.val.toNat ∧ c.val.toNat ≤ 57 := by
  simp only [Char.isDigit, Bool.and_eq_true, decide_eq_true_eq, ge_iff_le, UInt32.le_iff_toNat_le] at digit
  exact digit

theorem parseDigits_toDigits (n : Nat) : parseDigits (Nat.toDigits 10 n) = some n := by
  have digits : (Nat.toDigits 10 n).all Char.isDigit = true :=
    List.all_eq_true.mpr fun c member => Nat.isDigit_of_mem_toDigits (by decide) (by decide) member
  simp [parseDigits, digits, Nat.toDigits_ne_nil, Nat.ofDigitChars_ten_toDigits]

theorem parseInt_of_digits (digits : ∀ c ∈ s, c.isDigit) : parseInt s = (parseDigits s).bind fun n => fit n := by
  unfold parseInt
  split
  · next s =>
      have sign := digits '-' List.mem_cons_self
      exact absurd sign (by decide)
  · next s =>
      have sign := digits '+' List.mem_cons_self
      exact absurd sign (by decide)
  · rfl

theorem parseInt_toDigits (n : Nat) :
    parseInt (Nat.toDigits 10 n) = (parseDigits (Nat.toDigits 10 n)).bind fun n => fit n :=
  parseInt_of_digits fun _ member => Nat.isDigit_of_mem_toDigits (by decide) (by decide) member

theorem parseInt_formatInt (low : minInt ≤ n) (high : n ≤ maxInt) : parseInt (formatInt n) = some n := by
  cases n with
  | ofNat n =>
    rw [formatInt, parseInt_toDigits, parseDigits_toDigits, Option.bind_some]
    exact fit_eq_some.mpr ⟨rfl, low, high⟩
  | negSucc n =>
    rw [formatInt, parseInt, parseDigits_toDigits, Option.bind_some]
    exact fit_eq_some.mpr ⟨(Int.negSucc_eq n).symm, low, high⟩

theorem underscore_not_mem_formatInt (n : Int) : '_' ∉ formatInt n := by
  cases n with
  | ofNat n => exact Nat.underscore_not_in_toDigits
  | negSucc n => simp [formatInt]

end Mcp.Lib
