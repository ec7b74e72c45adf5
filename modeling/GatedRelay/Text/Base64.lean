import GatedRelay.Bytes.Basic

/-!
# Base 64

A digit holds six bits and four digits hold three bytes.  Blanks may stand anywhere.  The last group may be short: two
digits for one byte or three for two, with or without the equals signs that fill it up.
-/

set_option autoImplicit false

namespace GatedRelay.Base64

def isBlank (c : Char) : Bool := c = ' ' || ('\t' ≤ c && c ≤ '\r')

def value? (c : Char) : Option Nat :=
  if 'A' ≤ c ∧ c ≤ 'Z' then some (c.toNat - 'A'.toNat)
  else if 'a' ≤ c ∧ c ≤ 'z' then some (c.toNat - 'a'.toNat + 26)
  else if '0' ≤ c ∧ c ≤ '9' then some (c.toNat - '0'.toNat + 52)
  else if c = '+' then some 62
  else if c = '/' then some 63
  else none

/-- The bytes that digits hold.  Bits that fill no byte are left out. -/
def bytes? : List Nat → Option Bytes
  | [] => some []
  | [_] => none
  | [a, b] => some [UInt8.ofNat (4 * a + b / 16)]
  | [a, b, c] => some [UInt8.ofNat (4 * a + b / 16), UInt8.ofNat (16 * b + c / 4)]
  | a :: b :: c :: d :: rest =>
    (bytes? rest).map fun rest =>
      UInt8.ofNat (4 * a + b / 16) :: UInt8.ofNat (16 * b + c / 4) :: UInt8.ofNat (64 * c + d) :: rest

/-- Whether equals signs behind so many digits are none, or fill up the last group. -/
def fills (digits : Nat) (padding : List Char) : Bool :=
  padding.isEmpty || padding.length ≤ 2 && (digits + padding.length) % 4 = 0 && padding.all (· = '=')

def decode? (text : List Char) : Option Bytes := do
  let text := text.filter fun c => !isBlank c
  let digits := text.takeWhile (· ≠ '=')
  if fills digits.length (text.drop digits.length) then bytes? (← digits.mapM value?) else none

example : decode? "Zm 9v\nYg==".toList = some [0x66, 0x6F, 0x6F, 0x62] ∧ decode? "Zm8".toList = some [0x66, 0x6F]
    ∧ decode? "Zm8==".toList = none ∧ decode? "Zm9vY".toList = none := by
  decide

end GatedRelay.Base64
