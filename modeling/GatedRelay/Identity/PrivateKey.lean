import GatedRelay.Curve.Edwards
import GatedRelay.Curve.Weierstrass
import GatedRelay.Identity.PublicKey
import GatedRelay.Identity.Rsa

/-!
# Private keys

A private key is given alone, in a form of its algorithm's own, or wrapped together with the name of the algorithm.  It
is known by the public key that belongs to it; where that stands beside it, it has to be the right one.
-/

set_option autoImplicit false

namespace GatedRelay.PrivateKey

open Nested (Item)

structure Wrapping where
  algorithm : Bytes
  key : Bytes
  /-- The item for the public key, which stands in the second version only. -/
  shown : Option Item

def unwrap? (data : Bytes) : Option Wrapping := do
  let version :: name :: key :: rest ← Nested.sequence? data | none
  let rest := if rest.head?.any (·.tag = Nested.part 0) then rest.tail else rest
  if name.tag ≠ Nested.sequence ∨ key.tag ≠ Nested.octets then none
  else
    match version, rest with
    | ⟨_, [0]⟩, [] => if version.tag = Nested.integer then some ⟨name.value, key.value, none⟩ else none
    | ⟨_, [1]⟩, [i] => if version.tag = Nested.integer then some ⟨name.value, key.value, some i⟩ else none
    | _, _ => none

def ofPoint? (curve : Curve) (name data : Bytes) : Option PublicKey := do
  let version :: key :: rest ← Nested.sequence? data | none
  let rest := if rest.head? = some ⟨Nested.part 0, name⟩ then rest.tail else rest
  let [shown] := rest | none
  let [i] ← shown.inside? (Nested.part 1) | none
  let bits ← i.bits? Nested.bits
  if version = ⟨Nested.integer, [1]⟩ ∧ key.tag = Nested.octets ∧ curve.publicKey? key.value = some bits then
    some ⟨PublicKey.pointOn name, bits⟩
  else none

/-- The bits of a public key that stands beside a seed, under either of two tags. -/
def shownBits? (i : Item) : Option Bytes :=
  match i.inside? (Nested.part 1) with
  | some [bits] => bits.bits? Nested.bits
  | _ => i.bits? 0x81

def ofSeed? (data : Bytes) (shown : Option Item) : Option PublicKey := do
  let seed ← Nested.only? data
  let bits ← Edwards.publicKey? seed.value
  if seed.tag = Nested.octets ∧ shown.all (shownBits? · = some bits) then some ⟨PublicKey.edwards, bits⟩ else none

def ofRsa? (data : Bytes) : Option PublicKey := (RsaKey.publicKey? data).map fun bits => ⟨PublicKey.rsa, bits⟩

def ofWrapped? (data : Bytes) : Option PublicKey := do
  let w ← unwrap? data
  if w.algorithm = PublicKey.edwards then ofSeed? w.key w.shown
  else if w.shown.isSome then none
  else if w.algorithm = PublicKey.rsa then ofRsa? w.key
  else if w.algorithm = PublicKey.pointOn PublicKey.p256Name then ofPoint? .p256 PublicKey.p256Name w.key
  else if w.algorithm = PublicKey.pointOn PublicKey.p384Name then ofPoint? .p384 PublicKey.p384Name w.key
  else none

def ofAnyPoint? (data : Bytes) : Option PublicKey :=
  ofPoint? .p256 PublicKey.p256Name data <|> ofPoint? .p384 PublicKey.p384Name data

end GatedRelay.PrivateKey
