import GatedRelay.Bytes.Basic

/-!
# SHA-256

The digest of FIPS 180-4 on byte strings.  A message is followed by the byte `0x80`, by zeros and by its bit length
on eight bytes, so that it fills whole chunks of 64 bytes; each chunk is spread over 64 words and mixed into eight
registers.
-/

set_option autoImplicit false

namespace GatedRelay.Sha256

structure Registers where
  a : UInt32
  b : UInt32
  c : UInt32
  d : UInt32
  e : UInt32
  f : UInt32
  g : UInt32
  h : UInt32
  deriving DecidableEq

/-- First 32 bits of the fractional parts of the square roots of the first eight primes. -/
def initial : Registers :=
  ⟨0x6a09e667, 0xbb67ae85, 0x3c6ef372, 0xa54ff53a, 0x510e527f, 0x9b05688c, 0x1f83d9ab, 0x5be0cd19⟩

/-- First 32 bits of the fractional parts of the cube roots of the first 64 primes. -/
def roundConstants : List UInt32 := [
  0x428a2f98, 0x71374491, 0xb5c0fbcf, 0xe9b5dba5, 0x3956c25b, 0x59f111f1, 0x923f82a4, 0xab1c5ed5,
  0xd807aa98, 0x12835b01, 0x243185be, 0x550c7dc3, 0x72be5d74, 0x80deb1fe, 0x9bdc06a7, 0xc19bf174,
  0xe49b69c1, 0xefbe4786, 0x0fc19dc6, 0x240ca1cc, 0x2de92c6f, 0x4a7484aa, 0x5cb0a9dc, 0x76f988da,
  0x983e5152, 0xa831c66d, 0xb00327c8, 0xbf597fc7, 0xc6e00bf3, 0xd5a79147, 0x06ca6351, 0x14292967,
  0x27b70a85, 0x2e1b2138, 0x4d2c6dfc, 0x53380d13, 0x650a7354, 0x766a0abb, 0x81c2c92e, 0x92722c85,
  0xa2bfe8a1, 0xa81a664b, 0xc24b8b70, 0xc76c51a3, 0xd192e819, 0xd6990624, 0xf40e3585, 0x106aa070,
  0x19a4c116, 0x1e376c08, 0x2748774c, 0x34b0bcb5, 0x391c0cb3, 0x4ed8aa4a, 0x5b9cca4f, 0x682e6ff3,
  0x748f82ee, 0x78a5636f, 0x84c87814, 0x8cc70208, 0x90befffa, 0xa4506ceb, 0xbef9a3f7, 0xc67178f2]

def rotateRight (x n : UInt32) : UInt32 := (x >>> n) ||| (x <<< (32 - n))

def choose (x y z : UInt32) : UInt32 := (x &&& y) ^^^ ((~~~x) &&& z)

def majority (x y z : UInt32) : UInt32 := (x &&& y) ^^^ (x &&& z) ^^^ (y &&& z)

def bigSigma0 (x : UInt32) : UInt32 := rotateRight x 2 ^^^ rotateRight x 13 ^^^ rotateRight x 22

def bigSigma1 (x : UInt32) : UInt32 := rotateRight x 6 ^^^ rotateRight x 11 ^^^ rotateRight x 25

def smallSigma0 (x : UInt32) : UInt32 := rotateRight x 7 ^^^ rotateRight x 18 ^^^ (x >>> 3)

def smallSigma1 (x : UInt32) : UInt32 := rotateRight x 17 ^^^ rotateRight x 19 ^^^ (x >>> 10)

def padded (message : Bytes) : Bytes :=
  message ++ 0x80 :: List.replicate ((119 - message.length % 64) % 64) 0
    ++ (Bytes.ofNat 8 (8 * message.length)).reverse

theorem length_padded (message : Bytes) : (padded message).length % 64 = 0 := by
  simp only [padded, List.length_append, List.length_cons, List.length_replicate, List.length_reverse,
    Bytes.length_ofNat]
  omega

def words : Nat → Bytes → List UInt32
  | 0, _ => []
  | n + 1, chunk => UInt32.ofNat (Bytes.toNat (chunk.take 4).reverse) :: words n (chunk.drop 4)

/-- A schedule, newest word first, extended by `n` words. -/
def extend : Nat → List UInt32 → List UInt32
  | 0, ws => ws
  | n + 1, ws =>
    extend n ((smallSigma1 (ws.getD 1 0) + ws.getD 6 0 + smallSigma0 (ws.getD 14 0) + ws.getD 15 0) :: ws)

def schedule (chunk : Bytes) : List UInt32 := (extend 48 (words 16 chunk).reverse).reverse

def round (r : Registers) (step : UInt32 × UInt32) : Registers :=
  let t1 := r.h + bigSigma1 r.e + choose r.e r.f r.g + step.1 + step.2
  let t2 := bigSigma0 r.a + majority r.a r.b r.c
  ⟨t1 + t2, r.a, r.b, r.c, r.d + t1, r.e, r.f, r.g⟩

def compress (r : Registers) (chunk : Bytes) : Registers :=
  let s := (roundConstants.zip (schedule chunk)).foldl round r
  ⟨r.a + s.a, r.b + s.b, r.c + s.c, r.d + s.d, r.e + s.e, r.f + s.f, r.g + s.g, r.h + s.h⟩

def absorb : Nat → Bytes → Registers → Registers
  | 0, _, r => r
  | n + 1, text, r => absorb n (text.drop 64) (compress r (text.take 64))

def wordBytes (x : UInt32) : Bytes := (Bytes.ofNat 4 x.toNat).reverse

def Registers.bytes (r : Registers) : Bytes :=
  wordBytes r.a ++ wordBytes r.b ++ wordBytes r.c ++ wordBytes r.d
    ++ wordBytes r.e ++ wordBytes r.f ++ wordBytes r.g ++ wordBytes r.h

theorem Registers.length_bytes (r : Registers) : r.bytes.length = 32 := by
  simp [Registers.bytes, wordBytes]

def digest (message : Bytes) : Block 32 :=
  let text := padded message
  ⟨(absorb (text.length / 64) text initial).bytes, Registers.length_bytes _⟩

end GatedRelay.Sha256
