import GatedRelay.Curve.Remainder
import GatedRelay.Digest.Sha512

/-!
# The curve Ed25519

Points of y² - x² = 1 + d x² y² over the field of the prime 2²⁵⁵ - 19, in the coordinates (x / z, y / z) with t = x y / z
beside them.  One formula adds any two points.  A private key is a seed; its digest gives the number by which the base
point is multiplied.
-/

set_option autoImplicit false

namespace GatedRelay.Edwards

open Remainder (ladder inverse)

def prime : Nat := 1 <<< 255 - 19

def reduce (n : Int) : Int := Remainder.reduce prime n

/-- The number d of the equation, -121665 / 121666. -/
def constant : Int := 0x52036CEE2B6FFE738CC740797779E89800700A4D4141D8AB75EB4DCA135978A3

example : reduce (121666 * constant + 121665) = 0 := by decide +kernel

structure Point where
  x : Int
  y : Int
  z : Int
  t : Int

def neutral : Point := ⟨0, 1, 1, 0⟩

def base : Point :=
  let x := 0x216936D3CD6E53FEC0A4E231FDD6DC5C692CC7609525A7B2C9562D608F25D51A
  let y := 0x6666666666666666666666666666666666666666666666666666666666666658
  ⟨x, y, 1, reduce (x * y)⟩

def isOn (p : Point) : Bool :=
  reduce (p.y * p.y - p.x * p.x) = reduce (p.z * p.z + constant * p.t * p.t) && reduce (p.x * p.y) = reduce (p.z * p.t)

example : isOn base ∧ reduce (5 * base.y) = 4 := by decide +kernel

def add (p q : Point) : Point :=
  let a := reduce ((p.y - p.x) * (q.y - q.x))
  let b := reduce ((p.y + p.x) * (q.y + q.x))
  let c := reduce (2 * constant * p.t * q.t)
  let d := reduce (2 * p.z * q.z)
  ⟨reduce ((b - a) * (d - c)), reduce ((d + c) * (b + a)), reduce ((d - c) * (d + c)), reduce ((b - a) * (b + a))⟩

def times (n : Nat) (p : Point) : Point := ladder (fun q => add q q) (add · p) neutral n

/-- A point as its second coordinate, least significant byte first, with the lowest bit of the first one on top. -/
def Point.bytes (p : Point) : Bytes :=
  let w := inverse prime p.z
  Bytes.ofNat 32 ((reduce (p.y * w)).toNat + ((reduce (p.x * w)).toNat % 2) <<< 255)

/-- The number that a digest stands for: a multiple of 8 between 2²⁵⁴ and 2²⁵⁵. -/
def scalar (digest : Bytes) : Nat := 1 <<< 254 + 8 * (Bytes.toNat (digest.take 32) / 8 % 1 <<< 251)

def publicKey? (seed : Bytes) : Option Bytes :=
  if seed.length = 32 then some (times (scalar (Sha512.digest seed).bytes) base).bytes else none

end GatedRelay.Edwards
