import Mcp.Lib.Bytes

/-! # SHA-256 and hexadecimal text -/

namespace Mcp.Lib

namespace Sha256

def constants : List UInt32 :=
  [0x428a2f98, 0x71374491, 0xb5c0fbcf, 0xe9b5dba5, 0x3956c25b, 0x59f111f1, 0x923f82a4, 0xab1c5ed5,
   0xd807aa98, 0x12835b01, 0x243185be, 0x550c7dc3, 0x72be5d74, 0x80deb1fe, 0x9bdc06a7, 0xc19bf174,
   0xe49b69c1, 0xefbe4786, 0x0fc19dc6, 0x240ca1cc, 0x2de92c6f, 0x4a7484aa, 0x5cb0a9dc, 0x76f988da,
   0x983e5152, 0xa831c66d, 0xb00327c8, 0xbf597fc7, 0xc6e00bf3, 0xd5a79147, 0x06ca6351, 0x14292967,
   0x27b70a85, 0x2e1b2138, 0x4d2c6dfc, 0x53380d13, 0x650a7354, 0x766a0abb, 0x81c2c92e, 0x92722c85,
   0xa2bfe8a1, 0xa81a664b, 0xc24b8b70, 0xc76c51a3, 0xd192e819, 0xd6990624, 0xf40e3585, 0x106aa070,
   0x19a4c116, 0x1e376c08, 0x2748774c, 0x34b0bcb5, 0x391c0cb3, 0x4ed8aa4a, 0x5b9cca4f, 0x682e6ff3,
   0x748f82ee, 0x78a5636f, 0x84c87814, 0x8cc70208, 0x90befffa, 0xa4506ceb, 0xbef9a3f7, 0xc67178f2]

structure Digest where
  (a b c d e f g h : UInt32)

def initial : Digest :=
  ⟨0x6a09e667, 0xbb67ae85, 0x3c6ef372, 0xa54ff53a, 0x510e527f, 0x9b05688c, 0x1f83d9ab, 0x5be0cd19⟩

def rotateRight (x n : UInt32) : UInt32 := x >>> n ||| x <<< (32 - n)

def round (s : Digest) (kw : UInt32) : Digest :=
  let sum1 := rotateRight s.e 6 ^^^ rotateRight s.e 11 ^^^ rotateRight s.e 25
  let choice := (s.e &&& s.f) ^^^ (~~~s.e &&& s.g)
  let temp1 := s.h + sum1 + choice + kw
  let sum0 := rotateRight s.a 2 ^^^ rotateRight s.a 13 ^^^ rotateRight s.a 22
  let majority := (s.a &&& s.b) ^^^ (s.a &&& s.c) ^^^ (s.b &&& s.c)
  ⟨temp1 + (sum0 + majority), s.a, s.b, s.c, s.d + temp1, s.e, s.f, s.g⟩

def word (a b c d : UInt8) : UInt32 :=
  a.toUInt32 <<< 24 ||| b.toUInt32 <<< 16 ||| c.toUInt32 <<< 8 ||| d.toUInt32

def words : Bytes → List UInt32
  | a :: b :: c :: d :: rest => word a b c d :: words rest
  | _ => []

def extend : Nat → List UInt32 → List UInt32
  | 0, ws => ws
  | n + 1, ws =>
    let w15 := ws.getD 14 0
    let w2 := ws.getD 1 0
    let s0 := rotateRight w15 7 ^^^ rotateRight w15 18 ^^^ w15 >>> 3
    let s1 := rotateRight w2 17 ^^^ rotateRight w2 19 ^^^ w2 >>> 10
    extend n ((ws.getD 15 0 + s0 + ws.getD 6 0 + s1) :: ws)

def compress (s : Digest) (block : Bytes) : Digest :=
  let schedule := (extend 48 (words block).reverse).reverse
  let t := (List.zipWith (· + ·) constants schedule).foldl round s
  ⟨s.a + t.a, s.b + t.b, s.c + t.c, s.d + t.d, s.e + t.e, s.f + t.f, s.g + t.g, s.h + t.h⟩

def bigEndian (n : Nat) : Nat → Bytes
  | 0 => []
  | width + 1 => bigEndian (n / 256) width ++ [UInt8.ofNat n]

def pad (message : Bytes) : Bytes :=
  let zeros := (119 - message.length % 64) % 64
  message ++ 0x80 :: List.replicate zeros 0 ++ bigEndian (8 * message.length) 8

def blocks : Nat → Bytes → List Bytes
  | 0, _ => []
  | n + 1, text => text.take 64 :: blocks n (text.drop 64)

def Digest.bytes (s : Digest) : Bytes :=
  [s.a, s.b, s.c, s.d, s.e, s.f, s.g, s.h].flatMap fun w => bigEndian w.toNat 4

end Sha256

open Sha256 in
def sha256 (message : Bytes) : Bytes :=
  let text := pad message
  ((blocks (text.length / 64) text).foldl compress initial).bytes

example : (sha256 (Bytes.ofString "abc")).take 8 = [0xba, 0x78, 0x16, 0xbf, 0x8f, 0x01, 0xcf, 0xea] := by
  decide +kernel

namespace Hex

def digit (n : UInt8) : UInt8 := if n < 10 then 48 + n else 87 + n

def encode : Bytes → Bytes
  | [] => []
  | b :: bytes => digit (b / 16) :: digit (b % 16) :: encode bytes

def value (d : UInt8) : UInt8 := if d < 58 then d - 48 else d - 87

theorem value_digits (b : UInt8) : value (digit (b / 16)) * 16 + value (digit (b % 16)) = b := by
  have table : ∀ n : Fin 256,
      value (digit (UInt8.ofFin n / 16)) * 16 + value (digit (UInt8.ofFin n % 16)) = UInt8.ofFin n := by
    decide +kernel
  exact table b.toFin

theorem encode_injective : Function.Injective encode := by
  intro xs
  induction xs with
  | nil =>
    intro ys same
    cases ys with
    | nil => rfl
    | cons y ys => cases same
  | cons x xs ih =>
    intro ys same
    cases ys with
    | nil => cases same
    | cons y ys =>
      obtain ⟨high, low, rest⟩ : digit (x / 16) = digit (y / 16) ∧ digit (x % 16) = digit (y % 16) ∧
          encode xs = encode ys := by simpa only [encode, List.cons.injEq] using same
      have equal : x = y := by rw [← value_digits x, ← value_digits y, high, low]
      rw [equal, ih rest]

end Hex

end Mcp.Lib
