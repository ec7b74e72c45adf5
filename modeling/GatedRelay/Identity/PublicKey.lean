import GatedRelay.Bytes.Nested

/-!
# Public keys

A public key is given by the name of its algorithm and by data.  Certificates hold both, and two keys are the same if
that is the same byte for byte.
-/

set_option autoImplicit false

namespace GatedRelay

open Nested (Item)

structure PublicKey where
  algorithm : Bytes
  data : Bytes
  deriving DecidableEq

namespace PublicKey

def rsa : Bytes := [0x06, 0x09, 0x2A, 0x86, 0x48, 0x86, 0xF7, 0x0D, 0x01, 0x01, 0x01, 0x05, 0x00]

def p256Name : Bytes := [0x06, 0x08, 0x2A, 0x86, 0x48, 0xCE, 0x3D, 0x03, 0x01, 0x07]

def p384Name : Bytes := [0x06, 0x05, 0x2B, 0x81, 0x04, 0x00, 0x22]

def pointOn (curve : Bytes) : Bytes := [0x06, 0x07, 0x2A, 0x86, 0x48, 0xCE, 0x3D, 0x02, 0x01] ++ curve

def edwards : Bytes := [0x06, 0x03, 0x2B, 0x65, 0x70]

def bytes (k : PublicKey) : Bytes := (⟨Nested.sequence, k.algorithm⟩ : Item).bytes ++ (Item.ofBits k.data).bytes

end PublicKey

end GatedRelay
