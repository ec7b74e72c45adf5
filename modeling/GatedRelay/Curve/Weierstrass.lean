import GatedRelay.Bytes.Basic
import GatedRelay.Curve.Remainder

/-!
# Curves for signatures

Points of y² = x³ - 3x + b over the field of a prime, in the coordinates (x / z², y / z³), where z = 0 at infinity.  A
private key is a number below the order of the base point and its public key is that multiple of it.
-/

set_option autoImplicit false

namespace GatedRelay

structure Curve where
  prime : Nat
  /-- The number b of the equation. -/
  constant : Int
  baseX : Int
  baseY : Int
  order : Nat
  width : Nat

namespace Curve

open Remainder (ladder inverse)

def p256 : Curve where
  prime := 1 <<< 256 - 1 <<< 224 + 1 <<< 192 + 1 <<< 96 - 1
  constant := 0x5AC635D8AA3A93E7B3EBBD55769886BC651D06B0CC53B0F63BCE3C3E27D2604B
  baseX := 0x6B17D1F2E12C4247F8BCE6E563A440F277037D812DEB33A0F4A13945D898C296
  baseY := 0x4FE342E2FE1A7F9B8EE7EB4A7C0F9E162BCE33576B315ECECBB6406837BF51F5
  order := 0xFFFFFFFF00000000FFFFFFFFFFFFFFFFBCE6FAADA7179E84F3B9CAC2FC632551
  width := 32

def p384 : Curve where
  prime := 1 <<< 384 - 1 <<< 128 - 1 <<< 96 + 1 <<< 32 - 1
  constant :=
    0xB3312FA7E23EE7E4988E056BE3F82D19181D9C6EFE8141120314088F5013875AC656398D8A2ED19D2A85C8EDD3EC2AEF
  baseX :=
    0xAA87CA22BE8B05378EB1C71EF320AD746E1D3B628BA79B9859F741E082542A385502F25DBF55296C3A545E3872760AB7
  baseY :=
    0x3617DE4A96262C6F5D9E98BF9292DC29F8F41DBD289A147CE9DA3113B5F0B8C00A60B1CE1D7E819D7A431D7C90EA0E5F
  order :=
    0xFFFFFFFFFFFFFFFFFFFFFFFFFFFFFFFFFFFFFFFFFFFFFFFFC7634D81F4372DDF581A0DB248B0A77AECEC196ACCC52973
  width := 48

def reduce (c : Curve) (n : Int) : Int := Remainder.reduce c.prime n

structure Point where
  x : Int
  y : Int
  z : Int

def infinity : Point := ⟨1, 1, 0⟩

def base (c : Curve) : Point := ⟨c.baseX, c.baseY, 1⟩

def isOn (c : Curve) (p : Point) : Bool :=
  c.reduce (p.y.pow 2) = c.reduce (p.x.pow 3 - 3 * p.x * p.z.pow 4 + c.constant * p.z.pow 6)

example : p256.isOn p256.base ∧ p384.isOn p384.base := by decide +kernel

def double (c : Curve) (p : Point) : Point :=
  let delta := c.reduce (p.z * p.z)
  let gamma := c.reduce (p.y * p.y)
  let beta := c.reduce (p.x * gamma)
  let alpha := c.reduce (3 * (p.x - delta) * (p.x + delta))
  let x := c.reduce (alpha * alpha - 8 * beta)
  ⟨x, c.reduce (alpha * (4 * beta - x) - 8 * gamma * gamma), c.reduce ((p.y + p.z).pow 2 - gamma - delta)⟩

def add (c : Curve) (p q : Point) : Point :=
  if p.z = 0 then q
  else if q.z = 0 then p
  else
    let u := c.reduce (p.x * q.z.pow 2)
    let s := c.reduce (p.y * q.z.pow 3)
    let h := c.reduce (q.x * p.z.pow 2 - u)
    let r := c.reduce (q.y * p.z.pow 3 - s)
    if h = 0 then if r = 0 then c.double p else infinity
    else
      let x := c.reduce (r * r - h.pow 3 - 2 * u * h.pow 2)
      ⟨x, c.reduce (r * (u * h.pow 2 - x) - s * h.pow 3), c.reduce (h * p.z * q.z)⟩

def times (c : Curve) (n : Nat) (p : Point) : Point := ladder c.double (c.add · p) infinity n

def coordinate (c : Curve) (n : Int) : Bytes := (Bytes.ofNat c.width n.toNat).reverse

def pointBytes (c : Curve) (p : Point) : Bytes :=
  let w := inverse c.prime p.z
  0x04 :: c.coordinate (c.reduce (p.x * w.pow 2)) ++ c.coordinate (c.reduce (p.y * w.pow 3))

def publicKey? (c : Curve) (key : Bytes) : Option Bytes :=
  let n := Bytes.toNat key.reverse
  if key.length = c.width ∧ 0 < n ∧ n < c.order then some (c.pointBytes (c.times n c.base)) else none

end Curve

end GatedRelay
