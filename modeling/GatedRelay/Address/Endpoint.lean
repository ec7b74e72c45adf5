import GatedRelay.Address.Basic

/-!
# Endpoints

An address with a port.  An address of the sixth version stands in brackets there, perhaps with the number of the zone
that it is valid in.
-/

set_option autoImplicit false

namespace GatedRelay

structure Endpoint where
  address : Address
  port : UInt16
  zone : UInt32 := 0
  deriving DecidableEq

namespace Endpoint

/-- Digits below a bound.  Zeros may lead. -/
def below? (bound : Nat) (digits : List Char) : Option Nat := (Decimal.digits? digits).filter (· < bound)

def port? (digits : List Char) : Option UInt16 := (below? UInt16.size digits).map UInt16.ofNat

/-- The zone behind an address.  Zone 0 is none. -/
def zone? : List Char → Option UInt32
  | [] => some 0
  | '%' :: digits => (below? UInt32.size digits).map UInt32.ofNat
  | _ => none

def parse? (text : String) : Option Endpoint :=
  match text.toList with
  | '[' :: rest => do
    let inside := rest.takeWhile (· ≠ ']')
    let ']' :: ':' :: digits := rest.drop inside.length | none
    let address := inside.takeWhile (· ≠ '%')
    return ⟨← Address.ofV6? address, ← port? digits, ← zone? (inside.drop address.length)⟩
  | text => do
    let address := text.takeWhile (· ≠ ':')
    let ':' :: digits := text.drop address.length | none
    return ⟨← Address.ofV4? address, ← port? digits, 0⟩

def text (e : Endpoint) : String :=
  match e.address with
  | .v4 _ => s!"{e.address.text}:{e.port.toNat}"
  | .v6 _ =>
    let zone := if e.zone = 0 then "" else s!"%{e.zone.toNat}"
    s!"[{e.address.text}{zone}]:{e.port.toNat}"

end Endpoint

end GatedRelay
