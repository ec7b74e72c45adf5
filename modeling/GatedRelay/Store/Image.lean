import GatedRelay.Store.Entries

/-!
# Entries as they stand in a file

Every entry is a cell: how long it is, a header with the kinds of its key and its value, the key and the value.  Numbers
are written seven bits a byte, the highest first, and all bytes but the last are marked.  What a page has no room for goes
on elsewhere, behind a number that says where.  The last key stands first.
-/

set_option autoImplicit false

namespace GatedRelay.Entries

def septets (n : Nat) (last : UInt8) : Bytes :=
  if n = 0 then [last] else septets (n / 0x80) (UInt8.ofNat (0x80 + n % 0x80)) ++ [last]
termination_by n

def lengthNumber (n : Nat) : Bytes := septets (n / 0x80) (UInt8.ofNat (n % 0x80))

example : lengthNumber 0x7F = [0x7F] ∧ lengthNumber 0x80 = [0x81, 0x00] ∧ lengthNumber 0x4001 = [0x81, 0x80, 0x01] := by
  decide +kernel

def kind (data : Bytes) : Bytes := lengthNumber (12 + 2 * data.length)

def record (key value : Bytes) : Bytes :=
  let kinds := kind key ++ kind value
  lengthNumber (kinds.length + 1) ++ kinds ++ key ++ value

/-- The most bytes of a record that a cell holds. -/
def longestRecord : Nat := 1002

def pageRoom : Nat := 4092

def stay (n : Nat) : Nat :=
  if n ≤ longestRecord then n
  else
    let fitting := 489 + (n - 489) % pageRoom
    if fitting ≤ longestRecord then fitting else 489

/-- Where bytes go on.  It is not told which page that is. -/
def pageNumber : Bytes := Bytes.ofNat 4 0

def pages : Nat → Bytes → Bytes
  | 0, _ => []
  | n + 1, data => if data.isEmpty then [] else pageNumber ++ data.take pageRoom ++ pages n (data.drop pageRoom)

def cell (key value : Bytes) : Bytes :=
  let r := record key value
  let kept := stay r.length
  lengthNumber r.length ++ r.take kept ++ (if kept < r.length then pageNumber else [])

def overflow (key value : Bytes) : Bytes :=
  let r := record key value
  let rest := r.drop (stay r.length)
  pages rest.length rest

def image (e : Entries) : Bytes :=
  let last := e.pairs.reverse
  last.flatMap (fun p => cell p.1 p.2) ++ last.flatMap fun p => overflow p.1 p.2

end GatedRelay.Entries
