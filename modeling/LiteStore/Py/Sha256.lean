import Mathlib.Init

/-!
# SHA-256

`hashlib.sha256(data).digest()`, as the eight words of the digest.
-/

namespace Py.Sha256
set_option autoImplicit false

abbrev Word := BitVec 32

/-- The fractional parts of the cube roots of the first 64 primes. -/
def roundConstants : List Word :=
  [0x428a2f98, 0x71374491, 0xb5c0fbcf, 0xe9b5dba5, 0x3956c25b, 0x59f111f1, 0x923f82a4, 0xab1c5ed5,
   0xd807aa98, 0x12835b01, 0x243185be, 0x550c7dc3, 0x72be5d74, 0x80deb1fe, 0x9bdc06a7, 0xc19bf174,
   0xe49b69c1, 0xefbe4786, 0x0fc19dc6, 0x240ca1cc, 0x2de92c6f, 0x4a7484aa, 0x5cb0a9dc, 0x76f988da,
   0x983e5152, 0xa831c66d, 0xb00327c8, 0xbf597fc7, 0xc6e00bf3, 0xd5a79147, 0x06ca6351, 0x14292967,
   0x27b70a85, 0x2e1b2138, 0x4d2c6dfc, 0x53380d13, 0x650a7354, 0x766a0abb, 0x81c2c92e, 0x92722c85,
   0xa2bfe8a1, 0xa81a664b, 0xc24b8b70, 0xc76c51a3, 0xd192e819, 0xd6990624, 0xf40e3585, 0x106aa070,
   0x19a4c116, 0x1e376c08, 0x2748774c, 0x34b0bcb5, 0x391c0cb3, 0x4ed8aa4a, 0x5b9cca4f, 0x682e6ff3,
   0x748f82ee, 0x78a5636f, 0x84c87814, 0x8cc70208, 0x90befffa, 0xa4506ceb, 0xbef9a3f7, 0xc67178f2]

/-- The eight words that the compression works on. -/
structure State where
  a : Word
  b : Word
  c : Word
  d : Word
  e : Word
  f : Word
  g : Word
  h : Word
deriving DecidableEq

/-- The fractional parts of the square roots of the first 8 primes. -/
def initial : State :=
  ⟨0x6a09e667, 0xbb67ae85, 0x3c6ef372, 0xa54ff53a, 0x510e527f, 0x9b05688c, 0x1f83d9ab, 0x5be0cd19⟩

/-- The words of the message schedule behind the sixteen in `window`. -/
def expand : Nat → List Word → List Word
  | 0, _ => []
  | n + 1, window =>
    let w1 := window.getD 1 0
    let w14 := window.getD 14 0
    let s0 := w1.rotateRight 7 ^^^ w1.rotateRight 18 ^^^ (w1 >>> 3)
    let s1 := w14.rotateRight 17 ^^^ w14.rotateRight 19 ^^^ (w14 >>> 10)
    let next := window.getD 0 0 + s0 + window.getD 9 0 + s1
    next :: expand n (window.drop 1 ++ [next])

/-- One round, with its constant and its word of the schedule. -/
def round (s : State) (kw : Word × Word) : State :=
  let s1 := s.e.rotateRight 6 ^^^ s.e.rotateRight 11 ^^^ s.e.rotateRight 25
  let ch := (s.e &&& s.f) ^^^ (~~~s.e &&& s.g)
  let t1 := s.h + s1 + ch + kw.1 + kw.2
  let s0 := s.a.rotateRight 2 ^^^ s.a.rotateRight 13 ^^^ s.a.rotateRight 22
  let maj := (s.a &&& s.b) ^^^ (s.a &&& s.c) ^^^ (s.b &&& s.c)
  ⟨t1 + (s0 + maj), s.a, s.b, s.c, s.d + t1, s.e, s.f, s.g⟩

/-- The compression of one block of sixteen words. -/
def compress (s : State) (block : List Word) : State :=
  let t := (roundConstants.zip (block ++ expand 48 block)).foldl round s
  ⟨s.a + t.a, s.b + t.b, s.c + t.c, s.d + t.d, s.e + t.e, s.f + t.f, s.g + t.g, s.h + t.h⟩

/-- The words of bytes, the most significant byte first. -/
def words : List UInt8 → List Word
  | b0 :: b1 :: b2 :: b3 :: rest =>
    BitVec.ofNat 32 (((b0.toNat * 256 + b1.toNat) * 256 + b2.toNat) * 256 + b3.toNat) :: words rest
  | _ => []

/-- The compression of `n` blocks. -/
def blocks : Nat → State → List Word → State
  | 0, s, _ => s
  | n + 1, s, message => blocks n (compress s (message.take 16)) (message.drop 16)

/-- The message with a one bit, zeros and its length in bits, in whole blocks. -/
def padded (message : List UInt8) : List UInt8 :=
  let bits := 8 * message.length
  let size := (List.range 8).map fun i => UInt8.ofNat (bits >>> (8 * (7 - i)))
  message ++ 0x80 :: (List.replicate ((119 - message.length % 64) % 64) 0 ++ size)

/-- The digest. -/
def digest (message : List UInt8) : State :=
  blocks ((message.length + 9 + 63) / 64) initial (words (padded message))

/-- The first eight bytes of the digest of a text in UTF-8, as a number, the most significant
first. -/
def leading (text : String) : Nat :=
  let s := digest (text.toList.flatMap String.utf8EncodeChar)
  s.a.toNat * 0x100000000 + s.b.toNat

example : leading "abc" = 0xba7816bf8f01cfea := by decide +kernel

end Py.Sha256
