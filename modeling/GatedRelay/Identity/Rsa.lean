import GatedRelay.Bytes.Nested

/-!
# RSA keys

A private key is a modulus with its two factors, exponents for both directions, and numbers that follow from these and
make computing faster.  A key is sound if its modulus has between 2048 and 4096 bits, rounded up to bytes, if the factors
share the bits evenly, and if the other numbers can follow from them; what follows from a secret exponent is not
recomputed.
-/

set_option autoImplicit false

namespace GatedRelay

open Nested (Item)

structure RsaKey where
  modulus : Nat
  publicExponent : Nat
  privateExponent : Nat
  factor1 : Nat
  factor2 : Nat
  /-- The private exponent for the first factor. -/
  exponent1 : Nat
  exponent2 : Nat
  /-- The inverse of the second factor modulo the first. -/
  coefficient : Nat
  deriving DecidableEq

namespace RsaKey

def bitLength (n : Nat) : Nat := if n = 0 then 0 else n.log2 + 1

def isOdd (n : Nat) : Bool := n % 2 = 1

def half (k : RsaKey) : Nat := (bitLength k.modulus + 1) / 2

def hasSoundModulus (k : RsaKey) : Bool :=
  isOdd k.modulus && 2048 ≤ (bitLength k.modulus + 7) / 8 * 8 && bitLength k.modulus ≤ 4096

def hasSoundPublicExponent (k : RsaKey) : Bool :=
  isOdd k.publicExponent && 0x10001 ≤ k.publicExponent && k.publicExponent < 1 <<< 33

/-- Whether a number can be a factor, by its size, and an odd exponent goes with it. -/
def isSoundFactor (k : RsaKey) (factor exponent : Nat) : Bool :=
  isOdd factor && bitLength factor = k.half && isOdd exponent && exponent < factor

def isSound (k : RsaKey) : Bool :=
  k.hasSoundModulus && k.hasSoundPublicExponent
    && k.half % 512 = 0 && k.isSoundFactor k.factor1 k.exponent1 && k.isSoundFactor k.factor2 k.exponent2
    && k.factor1 * k.factor2 % k.modulus = 0
    && isOdd k.privateExponent && k.half < bitLength k.privateExponent && k.privateExponent < k.modulus
    && k.coefficient < k.factor1 && k.coefficient * k.factor2 % k.factor1 = 1

def ofBytes? (data : Bytes) : Option RsaKey := do
  let version :: numbers ← Nested.sequence? data | none
  let [n, e, d, p, q, dp, dq, qi] ← numbers.mapM Item.natural? | none
  if version = ⟨Nested.integer, [0]⟩ then some ⟨n, e, d, p, q, dp, dq, qi⟩ else none

def publicBytes (k : RsaKey) : Bytes :=
  (⟨Nested.sequence, (Item.ofNatural k.modulus).bytes ++ (Item.ofNatural k.publicExponent).bytes⟩ : Item).bytes

def publicKey? (data : Bytes) : Option Bytes := ((ofBytes? data).filter isSound).map publicBytes

end RsaKey

end GatedRelay
