import GatedRelay.Bytes.Basic

/-!
# Hexadecimal text

Two lower-case digits a byte.  Reading accepts digits of either case and refuses everything else.
-/

set_option autoImplicit false

namespace GatedRelay.Hex

def digit (n : Nat) : Char :=
  if n < 10 then Char.ofNat ('0'.toNat + n) else Char.ofNat ('a'.toNat + (n - 10))

def value? (c : Char) : Option Nat :=
  if '0' ≤ c ∧ c ≤ '9' then some (c.toNat - '0'.toNat)
  else if 'a' ≤ c ∧ c ≤ 'f' then some (c.toNat - 'a'.toNat + 10)
  else if 'A' ≤ c ∧ c ≤ 'F' then some (c.toNat - 'A'.toNat + 10)
  else none

def encode (b : Bytes) : String :=
  String.ofList (b.flatMap fun x => [digit (x.toNat / 16), digit (x.toNat % 16)])

def pairs : List Char → Option Bytes
  | [] => some []
  | [_] => none
  | high :: low :: rest => do
    let h ← value? high
    let l ← value? low
    let bytes ← pairs rest
    return UInt8.ofNat (16 * h + l) :: bytes

def decode? (text : String) : Option Bytes := pairs text.toList

end GatedRelay.Hex
