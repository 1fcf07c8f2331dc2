import BitlockerForensic.Std.Bytes

/-!
# SHA-256

The hash function on lists of bytes: the padding of a message to whole blocks of
64 bytes, the message schedule and the rounds of one block, and the digest.
-/

namespace Sha256

open RustStd

/-! ## Words -/

def rotr (x n : UInt32) : UInt32 := x >>> n ||| x <<< (32 - n)

def bigSigma0 (x : UInt32) : UInt32 := rotr x 2 ^^^ rotr x 13 ^^^ rotr x 22

def bigSigma1 (x : UInt32) : UInt32 := rotr x 6 ^^^ rotr x 11 ^^^ rotr x 25

def smallSigma0 (x : UInt32) : UInt32 := rotr x 7 ^^^ rotr x 18 ^^^ x >>> 3

def smallSigma1 (x : UInt32) : UInt32 := rotr x 17 ^^^ rotr x 19 ^^^ x >>> 10

def choice (x y z : UInt32) : UInt32 := x &&& y ^^^ ~~~x &&& z

def majority (x y z : UInt32) : UInt32 := x &&& y ^^^ x &&& z ^^^ y &&& z

/-- The big-endian words of a list of bytes. -/
def wordsOf : List UInt8 → List UInt32
  | a :: b :: c :: d :: rest =>
      (a.toUInt32 <<< 24 ||| b.toUInt32 <<< 16 ||| c.toUInt32 <<< 8 ||| d.toUInt32) :: wordsOf rest
  | _ => []

def bytesOf (x : UInt32) : List UInt8 :=
  [(x >>> 24).toUInt8, (x >>> 16).toUInt8, (x >>> 8).toUInt8, x.toUInt8]

/-! ## One block -/

/-- The first 32 bits of the fractional parts of the cube roots of the first 64 primes. -/
def roundConstants : List UInt32 :=
  [0x428a2f98, 0x71374491, 0xb5c0fbcf, 0xe9b5dba5, 0x3956c25b, 0x59f111f1, 0x923f82a4, 0xab1c5ed5,
    0xd807aa98, 0x12835b01, 0x243185be, 0x550c7dc3, 0x72be5d74, 0x80deb1fe, 0x9bdc06a7, 0xc19bf174,
    0xe49b69c1, 0xefbe4786, 0x0fc19dc6, 0x240ca1cc, 0x2de92c6f, 0x4a7484aa, 0x5cb0a9dc, 0x76f988da,
    0x983e5152, 0xa831c66d, 0xb00327c8, 0xbf597fc7, 0xc6e00bf3, 0xd5a79147, 0x06ca6351, 0x14292967,
    0x27b70a85, 0x2e1b2138, 0x4d2c6dfc, 0x53380d13, 0x650a7354, 0x766a0abb, 0x81c2c92e, 0x92722c85,
    0xa2bfe8a1, 0xa81a664b, 0xc24b8b70, 0xc76c51a3, 0xd192e819, 0xd6990624, 0xf40e3585, 0x106aa070,
    0x19a4c116, 0x1e376c08, 0x2748774c, 0x34b0bcb5, 0x391c0cb3, 0x4ed8aa4a, 0x5b9cca4f, 0x682e6ff3,
    0x748f82ee, 0x78a5636f, 0x84c87814, 0x8cc70208, 0x90befffa, 0xa4506ceb, 0xbef9a3f7, 0xc67178f2]

structure State where
  a : UInt32
  b : UInt32
  c : UInt32
  d : UInt32
  e : UInt32
  f : UInt32
  g : UInt32
  h : UInt32

namespace State

/-- The first 32 bits of the fractional parts of the square roots of the first 8 primes. -/
def initial : State where
  a := 0x6a09e667
  b := 0xbb67ae85
  c := 0x3c6ef372
  d := 0xa54ff53a
  e := 0x510e527f
  f := 0x9b05688c
  g := 0x1f83d9ab
  h := 0x5be0cd19

def add (s t : State) : State :=
  ⟨s.a + t.a, s.b + t.b, s.c + t.c, s.d + t.d, s.e + t.e, s.f + t.f, s.g + t.g, s.h + t.h⟩

def round (s : State) (input : UInt32 × UInt32) : State :=
  let t₁ := s.h + bigSigma1 s.e + choice s.e s.f s.g + input.1 + input.2
  let t₂ := bigSigma0 s.a + majority s.a s.b s.c
  ⟨t₁ + t₂, s.a, s.b, s.c, s.d + t₁, s.e, s.f, s.g⟩

def words (s : State) : List UInt32 := [s.a, s.b, s.c, s.d, s.e, s.f, s.g, s.h]

end State

/-- The words of the schedule, the last one first, extended by `count` more. -/
def extend : ℕ → List UInt32 → List UInt32
  | 0, ws => ws
  | count + 1, ws =>
      extend count ((smallSigma1 (ws.getD 1 0) + ws.getD 6 0 + smallSigma0 (ws.getD 14 0) +
        ws.getD 15 0) :: ws)

def schedule (block : List UInt8) : List UInt32 := (extend 48 (wordsOf block).reverse).reverse

def compress (s : State) (block : List UInt8) : State :=
  s.add ((roundConstants.zip (schedule block)).foldl State.round s)

/-! ## Messages -/

/-- The message, a one bit, zeros, and the length of the message in bits. -/
def pad (message : List UInt8) : List UInt8 :=
  message ++ (0x80 :: List.replicate ((119 - message.length % 64) % 64) 0) ++
    (leBytes 8 (8 * message.length)).reverse

def compressBlocks : ℕ → State → List UInt8 → State
  | 0, s, _ => s
  | count + 1, s, l => compressBlocks count (compress s (l.take 64)) (l.drop 64)

def digest (message : List UInt8) : Octets 32 where
  toList :=
    (compressBlocks ((pad message).length / 64) State.initial (pad message)).words.flatMap bytesOf
  length_eq := by
    simp [State.words, bytesOf]

/-- The digest of `abc`. -/
example : (digest [0x61, 0x62, 0x63]).toList =
    [0xba, 0x78, 0x16, 0xbf, 0x8f, 0x01, 0xcf, 0xea, 0x41, 0x41, 0x40, 0xde, 0x5d, 0xae, 0x22, 0x23,
      0xb0, 0x03, 0x61, 0xa3, 0x96, 0x17, 0x7a, 0x9c, 0xb4, 0x10, 0xff, 0x61, 0xf2, 0x00, 0x15,
      0xad] := by
  decide +kernel

end Sha256
