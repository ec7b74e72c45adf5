import GatedRelay.Text.Decimal

/-!
# Words of a command line

An argument is a long option, perhaps with a value behind an equals sign, a group of one-letter options, the mark that
ends all options, or plain.  A single dash is plain.
-/

set_option autoImplicit false

namespace GatedRelay

inductive Word where
  | long (name : String) (value : Option String)
  | short (letters : List Char)
  | endOfOptions
  | plain (text : String)

inductive Parsed (α : Type) where
  | accepted (a : α)
  | help
  | version
  | misuse

namespace Word

def ofArgument (argument : String) : Word :=
  match argument.toList with
  | ['-', '-'] => .endOfOptions
  | '-' :: '-' :: name =>
    let key := name.takeWhile (· ≠ '=')
    match name.drop key.length with
    | _ :: value => .long (String.ofList key) (some (String.ofList value))
    | [] => .long (String.ofList key) none
  | '-' :: letter :: more => .short (letter :: more)
  | _ => .plain argument

/-- Whether the letters behind a dash are those of a number: digits, with at most one point and at most one exponent
after them. -/
def looksNumeric (letters : List Char) : Bool :=
  let mantissa := letters.takeWhile fun c => c ≠ 'e' && c ≠ 'E'
  let exponent := letters.drop mantissa.length
  let whole := mantissa.takeWhile Char.isDigit
  let fraction := mantissa.drop whole.length
  let mantissaOk := match fraction with
    | [] => true
    | '.' :: more => !whole.isEmpty && more.all Char.isDigit
    | _ => false
  let exponentOk := match exponent with
    | [] => true
    | _ :: more => !mantissa.isEmpty && !more.isEmpty && more.all Char.isDigit
  mantissaOk && exponentOk

/-- Whether an argument may be the value of the option before it. -/
def isValue (negatives : Bool) (argument : String) : Bool :=
  match ofArgument argument with
  | .plain _ => true
  | .short letters => negatives && looksNumeric letters
  | _ => false

end Word

end GatedRelay
