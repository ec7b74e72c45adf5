/-!
# Numbers modulo a prime

Remainders are never negative, so that a number and its remainder can be told apart only by size.  Powers are taken
from the highest bit of the exponent down, and a number is inverted by the power that is two less than the prime.
-/

set_option autoImplicit false

namespace GatedRelay.Remainder

def reduce (p : Nat) (n : Int) : Int := n % (p : Int)

/-- Work through the bits of a number, from the highest down: the state is doubled for each of them, and added to for
those that are set. -/
def ladder {α : Type} (double add : α → α) (zero : α) (n : Nat) : α :=
  (List.range (n.log2 + 1)).foldr (fun i state => if n.testBit i then add (double state) else double state) zero

def power (p : Nat) (a : Int) (n : Nat) : Int :=
  ladder (fun x => reduce p (x * x)) (fun x => reduce p (x * a)) 1 n

def inverse (p : Nat) (a : Int) : Int := power p a (p - 2)

example : power 13 5 11 = 8 ∧ reduce 13 (5 * inverse 13 5) = 1 := by decide

end GatedRelay.Remainder
