import Mathlib.Algebra.Group.Nat.Defs

/-!
# SHA-256

The hash function itself, over naturals below `2 ^ 32`, in a form the kernel evaluates quickly. The development takes the hash as a parameter; this is the value the parameter has when the program runs, and what its failing runs are computed with.
-/

namespace Sha256

def rotr (x n : Nat) : Nat := (x >>> n) ||| ((x <<< (32 - n)) % 2 ^ 32)

def ch (x y z : Nat) : Nat := (x &&& y) ^^^ ((2 ^ 32 - 1 - x) &&& z)

def maj (x y z : Nat) : Nat := (x &&& y) ^^^ (x &&& z) ^^^ (y &&& z)

def bigSigma0 (x : Nat) : Nat := rotr x 2 ^^^ rotr x 13 ^^^ rotr x 22

def bigSigma1 (x : Nat) : Nat := rotr x 6 ^^^ rotr x 11 ^^^ rotr x 25

def smallSigma0 (x : Nat) : Nat := rotr x 7 ^^^ rotr x 18 ^^^ (x >>> 3)

def smallSigma1 (x : Nat) : Nat := rotr x 17 ^^^ rotr x 19 ^^^ (x >>> 10)

def roundConstants : List Nat := [
  0x428a2f98, 0x71374491, 0xb5c0fbcf, 0xe9b5dba5, 0x3956c25b, 0x59f111f1, 0x923f82a4, 0xab1c5ed5,
  0xd807aa98, 0x12835b01, 0x243185be, 0x550c7dc3, 0x72be5d74, 0x80deb1fe, 0x9bdc06a7, 0xc19bf174,
  0xe49b69c1, 0xefbe4786, 0x0fc19dc6, 0x240ca1cc, 0x2de92c6f, 0x4a7484aa, 0x5cb0a9dc, 0x76f988da,
  0x983e5152, 0xa831c66d, 0xb00327c8, 0xbf597fc7, 0xc6e00bf3, 0xd5a79147, 0x06ca6351, 0x14292967,
  0x27b70a85, 0x2e1b2138, 0x4d2c6dfc, 0x53380d13, 0x650a7354, 0x766a0abb, 0x81c2c92e, 0x92722c85,
  0xa2bfe8a1, 0xa81a664b, 0xc24b8b70, 0xc76c51a3, 0xd192e819, 0xd6990624, 0xf40e3585, 0x106aa070,
  0x19a4c116, 0x1e376c08, 0x2748774c, 0x34b0bcb5, 0x391c0cb3, 0x4ed8aa4a, 0x5b9cca4f, 0x682e6ff3,
  0x748f82ee, 0x78a5636f, 0x84c87814, 0x8cc70208, 0x90befffa, 0xa4506ceb, 0xbef9a3f7, 0xc67178f2]

structure Working where
  (a b c d e f g h : Nat)

def initial : Working :=
  ⟨0x6a09e667, 0xbb67ae85, 0x3c6ef372, 0xa54ff53a, 0x510e527f, 0x9b05688c, 0x1f83d9ab, 0x5be0cd19⟩

def round (s : Working) (k w : Nat) : Working :=
  let t1 := s.h + bigSigma1 s.e + ch s.e s.f s.g + k + w
  let t2 := bigSigma0 s.a + maj s.a s.b s.c
  ⟨(t1 + t2) % 2 ^ 32, s.a, s.b, s.c, (s.d + t1) % 2 ^ 32, s.e, s.f, s.g⟩

/-- The rounds of one block. Sixteen words of the schedule are kept, and each round shifts in the next one. -/
def rounds : List Nat → List Nat → Working → Working
  | [], _, s => s
  | k :: ks, schedule, s =>
    match schedule with
    | w0 :: w1 :: w2 :: w3 :: w4 :: w5 :: w6 :: w7 :: w8 :: w9 :: w10 :: w11 :: w12 :: w13 ::
        w14 :: w15 :: _ =>
      let next := (smallSigma1 w14 + w9 + smallSigma0 w1 + w0) % 2 ^ 32
      rounds ks [w1, w2, w3, w4, w5, w6, w7, w8, w9, w10, w11, w12, w13, w14, w15, next]
        (round s k w0)
    | _ => s

def word (bytes : List Nat) : Nat := bytes.foldl (fun acc b => acc * 256 + b) 0

/-- Cut a list into pieces of `n`, at most `count` of them. -/
def chunks (n : Nat) : Nat → List Nat → List (List Nat)
  | 0, _ => []
  | count + 1, xs => if xs.isEmpty then [] else xs.take n :: chunks n count (xs.drop n)

def compress (s : Working) (block : List Nat) : Working :=
  let r := rounds roundConstants ((chunks 4 16 block).map word) s
  ⟨(s.a + r.a) % 2 ^ 32, (s.b + r.b) % 2 ^ 32, (s.c + r.c) % 2 ^ 32, (s.d + r.d) % 2 ^ 32,
    (s.e + r.e) % 2 ^ 32, (s.f + r.f) % 2 ^ 32, (s.g + r.g) % 2 ^ 32, (s.h + r.h) % 2 ^ 32⟩

/-- The low `width` bytes of a number, most significant first. -/
def bigEndian : Nat → Nat → List Nat
  | 0, _ => []
  | width + 1, x => (x >>> (8 * width)) % 256 :: bigEndian width x

def pad (message : List Nat) : List Nat :=
  message ++ [128] ++ List.replicate ((119 - message.length % 64) % 64) 0 ++
    bigEndian 8 (message.length * 8)

def digestWords (message : List Nat) : List Nat :=
  let padded := pad message
  let s := (chunks 64 padded.length padded).foldl compress initial
  [s.a, s.b, s.c, s.d, s.e, s.f, s.g, s.h]

def digest (message : List UInt8) : List UInt8 :=
  ((digestWords (message.map UInt8.toNat)).flatMap (bigEndian 4)).map UInt8.ofNat

example : (digest [97, 98, 99]).take 4 = [0xba, 0x78, 0x16, 0xbf] := by decide +kernel

end Sha256
