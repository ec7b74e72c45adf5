import GatedRelay.Bytes.Hex
import GatedRelay.Store.Entries

/-!
# Databases as text

One line for every entry, in the order of the keys: the key and the value in hexadecimal digits with a blank between.
A text with any other line is not read at all.
-/

set_option autoImplicit false

namespace GatedRelay.Entries

def dumpLine (p : Bytes × Bytes) : String := s!"{Hex.encode p.1} {Hex.encode p.2}\n"

def dump (e : Entries) : String := String.join (e.pairs.map dumpLine)

def readLine? (line : String) : Option (Bytes × Bytes) :=
  match line.splitToList (· = ' ') with
  | [key, value] => do return (← Hex.decode? key, ← Hex.decode? value)
  | _ => none

def ofDump? (text : String) : Option Entries :=
  let lines := (text.splitToList (· = '\n')).filter (· ≠ "")
  (lines.mapM readLine?).map ofList

end GatedRelay.Entries
