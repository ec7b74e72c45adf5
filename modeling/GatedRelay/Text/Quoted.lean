import GatedRelay.Text.Invisible

/-!
# Quoted text

A text between double quotes, on one line and without invisible characters: a backslash stands before a quote and
before a backslash, four characters have a short form, and an invisible one is given by its code point.
-/

set_option autoImplicit false

namespace GatedRelay.Quoted

def escape (c : Char) : List Char :=
  match c with
  | '"' => ['\\', '"']
  | '\\' => ['\\', '\\']
  | '\n' => ['\\', 'n']
  | '\r' => ['\\', 'r']
  | '\t' => ['\\', 't']
  | '\x00' => ['\\', '0']
  | c =>
    if Invisible.contains c then ['\\', 'u', '\x7b'] ++ Nat.toDigits 16 c.toNat ++ ['\x7d'] else [c]

def quote (text : String) : String := String.ofList ('"' :: text.toList.flatMap escape ++ ['"'])

end GatedRelay.Quoted
