/-!
# Decimal numbers

At least one digit, after an optional sign.  Blanks, separators and other bases are refused.
-/

set_option autoImplicit false

namespace GatedRelay.Decimal

def digits? (cs : List Char) : Option Nat :=
  if cs.isEmpty || !cs.all Char.isDigit then none
  else some (cs.foldl (fun n c => 10 * n + (c.toNat - '0'.toNat)) 0)

def natural? (text : String) : Option Nat :=
  match text.toList with
  | '+' :: cs => digits? cs
  | cs => digits? cs

def integer? (text : String) : Option Int :=
  match text.toList with
  | '-' :: cs => (digits? cs).map fun n => -n
  | '+' :: cs => (digits? cs).map fun n => n
  | cs => (digits? cs).map fun n => n

def int32? (text : String) : Option Int32 := do
  let n ← integer? text
  if Int32.minValue.toInt ≤ n ∧ n ≤ Int32.maxValue.toInt then some (Int32.ofInt n) else none

def uint64? (text : String) : Option UInt64 := do
  let n ← natural? text
  if n < UInt64.size then some (UInt64.ofNat n) else none

end GatedRelay.Decimal
