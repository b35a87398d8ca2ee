import Rkb.Library.Bytes

namespace Rkb.Library.Sha256

open Rkb.Library.Bytes

/-- Words are naturals below `2 ^ 32`, so that the kernel evaluates the function on literals. -/
def addWord (x y : Nat) : Nat := (x + y) % 2 ^ 32

def rotr (x n : Nat) : Nat := (x >>> n) ||| ((x <<< (32 - n)) % 2 ^ 32)

def ch (x y z : Nat) : Nat := (x &&& y) ^^^ ((0xffffffff ^^^ x) &&& z)

def maj (x y z : Nat) : Nat := (x &&& y) ^^^ (x &&& z) ^^^ (y &&& z)

def bigSigma0 (x : Nat) : Nat := rotr x 2 ^^^ rotr x 13 ^^^ rotr x 22

def bigSigma1 (x : Nat) : Nat := rotr x 6 ^^^ rotr x 11 ^^^ rotr x 25

def smallSigma0 (x : Nat) : Nat := rotr x 7 ^^^ rotr x 18 ^^^ (x >>> 3)

def smallSigma1 (x : Nat) : Nat := rotr x 17 ^^^ rotr x 19 ^^^ (x >>> 10)

def roundConstants : List Nat :=
  [
    0x428a2f98, 0x71374491, 0xb5c0fbcf, 0xe9b5dba5, 0x3956c25b, 0x59f111f1,
    0x923f82a4, 0xab1c5ed5, 0xd807aa98, 0x12835b01, 0x243185be, 0x550c7dc3,
    0x72be5d74, 0x80deb1fe, 0x9bdc06a7, 0xc19bf174, 0xe49b69c1, 0xefbe4786,
    0x0fc19dc6, 0x240ca1cc, 0x2de92c6f, 0x4a7484aa, 0x5cb0a9dc, 0x76f988da,
    0x983e5152, 0xa831c66d, 0xb00327c8, 0xbf597fc7, 0xc6e00bf3, 0xd5a79147,
    0x06ca6351, 0x14292967, 0x27b70a85, 0x2e1b2138, 0x4d2c6dfc, 0x53380d13,
    0x650a7354, 0x766a0abb, 0x81c2c92e, 0x92722c85, 0xa2bfe8a1, 0xa81a664b,
    0xc24b8b70, 0xc76c51a3, 0xd192e819, 0xd6990624, 0xf40e3585, 0x106aa070,
    0x19a4c116, 0x1e376c08, 0x2748774c, 0x34b0bcb5, 0x391c0cb3, 0x4ed8aa4a,
    0x5b9cca4f, 0x682e6ff3, 0x748f82ee, 0x78a5636f, 0x84c87814, 0x8cc70208,
    0x90befffa, 0xa4506ceb, 0xbef9a3f7, 0xc67178f2]

structure HashState where
  a : Nat
  b : Nat
  c : Nat
  d : Nat
  e : Nat
  f : Nat
  g : Nat
  h : Nat

def initialState : HashState :=
  ⟨0x6a09e667, 0xbb67ae85, 0x3c6ef372, 0xa54ff53a, 0x510e527f, 0x9b05688c, 0x1f83d9ab, 0x5be0cd19⟩

def round (s : HashState) (k w : Nat) : HashState :=
  let t₁ := addWord (addWord s.h (bigSigma1 s.e)) (addWord (ch s.e s.f s.g) (addWord k w))
  let t₂ := addWord (bigSigma0 s.a) (maj s.a s.b s.c)
  ⟨addWord t₁ t₂, s.a, s.b, s.c, addWord s.d t₁, s.e, s.f, s.g⟩

/-- The rounds of one block. The window holds the next sixteen words of the
message schedule. -/
def rounds : List Nat → List Nat → HashState → HashState
  | [], _, s => s
  | _ :: _, [], s => s
  | k :: ks, w :: ws, s =>
      let next := addWord (addWord (smallSigma1 (ws.getD 13 0)) (ws.getD 8 0))
        (addWord (smallSigma0 (ws.getD 0 0)) w)
      rounds ks (ws ++ [next]) (round s k w)

def compress (s : HashState) (block : List Nat) : HashState :=
  let r := rounds roundConstants block s
  ⟨addWord s.a r.a, addWord s.b r.b, addWord s.c r.c, addWord s.d r.d,
    addWord s.e r.e, addWord s.f r.f, addWord s.g r.g, addWord s.h r.h⟩

def toWords : List UInt8 → List Nat
  | b₀ :: b₁ :: b₂ :: b₃ :: rest =>
      (b₀.toNat * 2 ^ 24 + b₁.toNat * 2 ^ 16 + b₂.toNat * 2 ^ 8 + b₃.toNat) :: toWords rest
  | _ => []

def pad (message : List UInt8) : List UInt8 :=
  message ++ 0x80 :: List.replicate ((119 - message.length % 64) % 64) 0 ++
    (leBytes 8 (8 * message.length)).reverse

def compressBlocks : Nat → List Nat → HashState → HashState
  | 0, _, s => s
  | k + 1, ws, s => compressBlocks k (ws.drop 16) (compress s (ws.take 16))

def wordBytes (x : Nat) : List UInt8 := (leBytes 4 x).reverse

def digestBytes (s : HashState) : List UInt8 :=
  wordBytes s.a ++ wordBytes s.b ++ wordBytes s.c ++ wordBytes s.d ++
    wordBytes s.e ++ wordBytes s.f ++ wordBytes s.g ++ wordBytes s.h

def sha256 (message : List UInt8) : FixedBytes 32 where
  bytes := digestBytes
    (compressBlocks ((pad message).length / 64) (toWords (pad message)) initialState)
  length_eq := by
    simp only [digestBytes, wordBytes, List.length_append, List.length_reverse, length_leBytes]

example : (sha256 "abc".toUTF8.toList).bytes.take 8 =
    [0xba, 0x78, 0x16, 0xbf, 0x8f, 0x01, 0xcf, 0xea] := by
  decide +kernel

end Rkb.Library.Sha256
