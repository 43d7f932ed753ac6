import Mcp.Lib.Bytes

/-! # Base64 -/

namespace Mcp.Lib.Base64

def letter (n : Nat) : UInt8 :=
  if n < 26 then .ofNat (65 + n)
  else if n < 52 then .ofNat (71 + n)
  else if n < 62 then .ofNat (n - 4)
  else if n = 62 then 45
  else 95

def sextet (c : UInt8) : Option Nat :=
  if 65 ≤ c ∧ c ≤ 90 then some (c.toNat - 65)
  else if 97 ≤ c ∧ c ≤ 122 then some (c.toNat - 71)
  else if 48 ≤ c ∧ c ≤ 57 then some (c.toNat + 4)
  else if c = 45 then some 62
  else if c = 95 then some 63
  else none

def toSextets : Bytes → List Nat
  | [] => []
  | [a] => [a.toNat / 4, a.toNat % 4 * 16]
  | [a, b] => [a.toNat / 4, a.toNat % 4 * 16 + b.toNat / 16, b.toNat % 16 * 4]
  | a :: b :: c :: rest =>
    a.toNat / 4 :: (a.toNat % 4 * 16 + b.toNat / 16) :: (b.toNat % 16 * 4 + c.toNat / 64) :: c.toNat % 64 ::
      toSextets rest

def ofSextets : List Nat → Option Bytes
  | [] => some []
  | [_] => none
  | [p, q] => some [.ofNat (p * 4 + q / 16)]
  | [p, q, r] => some [.ofNat (p * 4 + q / 16), .ofNat (q % 16 * 16 + r / 4)]
  | p :: q :: r :: s :: rest =>
    (ofSextets rest).map fun bytes =>
      .ofNat (p * 4 + q / 16) :: .ofNat (q % 16 * 16 + r / 4) :: .ofNat (r % 4 * 64 + s) :: bytes

def encode (bytes : Bytes) : Bytes := (toSextets bytes).map letter

def sextets : Bytes → Option (List Nat)
  | [] => some []
  | c :: rest => if c = 10 ∨ c = 13 then sextets rest else (sextet c).bind fun n => (sextets rest).map (n :: ·)

def decode (text : Bytes) : Option Bytes := (sextets text).bind ofSextets

variable {n : Nat}

theorem sextet_letter (small : n < 64) : sextet (letter n) = some n ∧ letter n ≠ 10 ∧ letter n ≠ 13 := by
  have all : ∀ m < 64, sextet (letter m) = some m ∧ letter m ≠ 10 ∧ letter m ≠ 13 := by decide
  exact all n small

theorem toSextets_lt (bytes : Bytes) : ∀ n ∈ toSextets bytes, n < 64 := by
  induction bytes using toSextets.induct with
  | case1 => simp [toSextets]
  | case2 a =>
    have small := a.toNat_lt
    simp only [toSextets, List.mem_cons, List.not_mem_nil, or_false]
    omega
  | case3 a b =>
    have small := a.toNat_lt
    have small' := b.toNat_lt
    simp only [toSextets, List.mem_cons, List.not_mem_nil, or_false]
    omega
  | case4 a b c rest ih =>
    have small := a.toNat_lt
    have small' := b.toNat_lt
    have small'' := c.toNat_lt
    intro n member
    simp only [toSextets, List.mem_cons] at member
    rcases member with rfl | rfl | rfl | rfl | rest
    · omega
    · omega
    · omega
    · omega
    · exact ih n rest

theorem sextets_map_letter {ns : List Nat} (small : ∀ n ∈ ns, n < 64) : sextets (ns.map letter) = some ns := by
  induction ns with
  | nil => rfl
  | cons n ns ih =>
    obtain ⟨value, notNewline, notReturn⟩ := sextet_letter (small n (List.mem_cons_self ..))
    have rest := ih fun m member => small m (List.mem_cons_of_mem _ member)
    simp [sextets, value, notNewline, notReturn, rest]

theorem ofNat_eq {a : UInt8} (same : n = a.toNat) : UInt8.ofNat n = a := by
  rw [same]
  exact UInt8.ofNat_toNat

theorem ofSextets_toSextets (bytes : Bytes) : ofSextets (toSextets bytes) = some bytes := by
  induction bytes using toSextets.induct with
  | case1 => rfl
  | case2 a =>
    have first : UInt8.ofNat (a.toNat / 4 * 4 + a.toNat % 4 * 16 / 16) = a := ofNat_eq (by omega)
    simp only [toSextets, ofSextets, first]
  | case3 a b =>
    have small := b.toNat_lt
    have first : UInt8.ofNat (a.toNat / 4 * 4 + (a.toNat % 4 * 16 + b.toNat / 16) / 16) = a := ofNat_eq (by omega)
    have second : UInt8.ofNat ((a.toNat % 4 * 16 + b.toNat / 16) % 16 * 16 + b.toNat % 16 * 4 / 4) = b :=
      ofNat_eq (by omega)
    simp only [toSextets, ofSextets, first, second]
  | case4 a b c rest ih =>
    have small := b.toNat_lt
    have small' := c.toNat_lt
    have first : UInt8.ofNat (a.toNat / 4 * 4 + (a.toNat % 4 * 16 + b.toNat / 16) / 16) = a := ofNat_eq (by omega)
    have second : UInt8.ofNat ((a.toNat % 4 * 16 + b.toNat / 16) % 16 * 16 + (b.toNat % 16 * 4 + c.toNat / 64) / 4) =
        b :=
      ofNat_eq (by omega)
    have third : UInt8.ofNat ((b.toNat % 16 * 4 + c.toNat / 64) % 4 * 64 + c.toNat % 64) = c := ofNat_eq (by omega)
    simp only [toSextets, ofSextets, ih, Option.map_some, first, second, third]

theorem decode_encode (bytes : Bytes) : decode (encode bytes) = some bytes := by
  unfold decode encode
  rw [sextets_map_letter (toSextets_lt bytes)]
  exact ofSextets_toSextets bytes

theorem length_le_of_sextets {text : Bytes} {ns : List Nat} (read : sextets text = some ns) :
    ns.length ≤ text.length := by
  induction text generalizing ns with
  | nil =>
    cases read
    exact Nat.le_refl _
  | cons c rest ih =>
    rw [sextets] at read
    split_ifs at read
    · exact Nat.le_succ_of_le (ih read)
    · obtain ⟨n, -, read⟩ := Option.bind_eq_some_iff.mp read
      obtain ⟨ns, others, rfl⟩ := Option.map_eq_some_iff.mp read
      exact Nat.succ_le_succ (ih others)

theorem length_le_of_ofSextets {ns : List Nat} {bytes : Bytes} (read : ofSextets ns = some bytes) :
    bytes.length ≤ ns.length := by
  induction ns using ofSextets.induct generalizing bytes with
  | case1 | case3 | case4 =>
    cases read
    simp
  | case2 => cases read
  | case5 p q r s rest ih =>
    obtain ⟨bytes, others, rfl⟩ := Option.map_eq_some_iff.mp read
    have shorter := ih others
    simp only [List.length_cons]
    omega

theorem length_le_of_decode {text bytes : Bytes} (decoded : decode text = some bytes) : bytes.length ≤ text.length := by
  obtain ⟨ns, read, parts⟩ := Option.bind_eq_some_iff.mp decoded
  exact Nat.le_trans (length_le_of_ofSextets parts) (length_le_of_sextets read)

theorem encode_eq_nil {bytes : Bytes} : encode bytes = [] ↔ bytes = [] := by
  constructor
  · intro empty
    have decoded := decode_encode bytes
    rw [empty] at decoded
    exact (Option.some.inj decoded).symm
  · rintro rfl
    rfl

namespace Std

def letter (n : Nat) : Char :=
  if n < 26 then .ofNat (65 + n)
  else if n < 52 then .ofNat (71 + n)
  else if n < 62 then .ofNat (n - 4)
  else if n = 62 then '+'
  else '/'

def sextet (c : Char) : Option Nat :=
  if 'A' ≤ c ∧ c ≤ 'Z' then some (c.toNat - 65)
  else if 'a' ≤ c ∧ c ≤ 'z' then some (c.toNat - 71)
  else if '0' ≤ c ∧ c ≤ '9' then some (c.toNat + 4)
  else if c = '+' then some 62
  else if c = '/' then some 63
  else none

def padding (n : Nat) : List Char := List.replicate ((4 - n % 4) % 4) '='

def encode (bytes : Bytes) : String :=
  String.ofList ((toSextets bytes).map letter ++ padding (toSextets bytes).length)

def decode (text : String) : Option Bytes :=
  let chars := text.toList.filter fun c => c ≠ '\n' && c ≠ '\r'
  let letters := chars.takeWhile (· ≠ '=')
  if chars.drop letters.length = padding letters.length then (letters.mapM sextet).bind ofSextets else none

theorem sextet_letter {n : Nat} (small : n < 64) :
    sextet (letter n) = some n ∧ letter n ≠ '=' ∧ letter n ≠ '\n' ∧ letter n ≠ '\r' := by
  have all : ∀ m < 64, sextet (letter m) = some m ∧ letter m ≠ '=' ∧ letter m ≠ '\n' ∧ letter m ≠ '\r' := by decide
  exact all n small

variable {ns : List Nat}

theorem mapM_sextet (small : ∀ n ∈ ns, n < 64) : (ns.map letter).mapM sextet = some ns := by
  induction ns with
  | nil => rfl
  | cons n ns ih =>
    have rest := ih fun m member => small m (List.mem_cons_of_mem _ member)
    simp [List.mapM_cons, (sextet_letter (small n List.mem_cons_self)).1, rest]

theorem takeWhile_letters (small : ∀ n ∈ ns, n < 64) (k : Nat) :
    (ns.map letter ++ padding k).takeWhile (· ≠ '=') = ns.map letter := by
  rw [padding, List.takeWhile_append_of_pos]
  · cases (4 - k % 4) % 4 <;> simp [List.replicate_succ]
  · intro c member
    obtain ⟨n, place, rfl⟩ := List.mem_map.mp member
    simpa using (sextet_letter (small n place)).2.1

theorem decode_encode (bytes : Bytes) : decode (encode bytes) = some bytes := by
  have small := toSextets_lt bytes
  have plain : ∀ c ∈ (toSextets bytes).map letter ++ padding (toSextets bytes).length,
      (c ≠ '\n' && c ≠ '\r') = true := by
    intro c member
    rcases List.mem_append.mp member with inside | pad
    · obtain ⟨n, place, rfl⟩ := List.mem_map.mp inside
      simpa using (sextet_letter (small n place)).2.2
    · rw [List.eq_of_mem_replicate pad]
      rfl
  unfold decode encode
  simp only [String.toList_ofList, List.filter_eq_self.mpr plain]
  rw [takeWhile_letters small, List.drop_left, List.length_map, if_pos rfl, mapM_sextet small]
  exact ofSextets_toSextets bytes

end Std

end Mcp.Lib.Base64
