import GatedRelay.Bytes.Hex
import GatedRelay.Text.Decimal

/-!
# Addresses of network interfaces

An address of the fourth version is written as four numbers without leading zeros, one of the sixth as eight groups of
hexadecimal digits.  There one run of zero groups may be left out, and the last two groups may be written as an address
of the fourth version.  One address has many texts; `text` writes the first of its longest gaps as one, in lower case.
-/

set_option autoImplicit false

namespace GatedRelay

inductive Address where
  | v4 (bytes : Block 4)
  | v6 (bytes : Block 16)
  deriving DecidableEq

namespace Address

def split (separator : Char) : List Char → List (List Char)
  | [] => [[]]
  | c :: rest =>
    if c = separator then [] :: split separator rest
    else
      match split separator rest with
      | [] => [[c]]
      | part :: more => (c :: part) :: more

/-! ## Reading -/

def octet? (part : List Char) : Option UInt8 :=
  if part.length ≤ 3 ∧ (part.length = 1 ∨ part.head? ≠ some '0') then
    (Decimal.digits? part).bind fun n => if n < 256 then some (UInt8.ofNat n) else none
  else none

def fourNumbers? (text : List Char) : Option Bytes :=
  if (split '.' text).length = 4 then (split '.' text).mapM octet? else none

def group? (part : List Char) : Option Bytes :=
  if 1 ≤ part.length ∧ part.length ≤ 4 then
    (part.mapM Hex.value?).map fun digits => (Bytes.ofNat 2 (digits.foldl (fun n d => 16 * n + d) 0)).reverse
  else none

/-- The bytes of some groups.  Four numbers can only come last, and not before a gap. -/
def groups? (beforeGap : Bool) : List (List Char) → Option Bytes
  | [] => some []
  | [part] => group? part <|> if beforeGap then none else fourNumbers? part
  | part :: rest => do return (← group? part) ++ (← groups? beforeGap rest)

def side (text : List Char) : List (List Char) := if text.isEmpty then [] else split ':' text

def gap? : List Char → Option (List Char × List Char)
  | ':' :: ':' :: rest => some ([], rest)
  | c :: rest => (gap? rest).map fun (before, behind) => (c :: before, behind)
  | [] => none

/-- The sixteen bytes of groups.  A gap stands for at least one of them. -/
def eightGroups? (text : List Char) : Option Bytes :=
  match gap? text with
  | none => (groups? false (split ':' text)).filter (·.length = 16)
  | some (before, behind) => do
    let before ← groups? true (side before)
    let behind ← groups? false (side behind)
    if before.length + behind.length ≤ 14 then
      some (before ++ List.replicate (16 - before.length - behind.length) 0 ++ behind)
    else none

def ofV4? (text : List Char) : Option Address := (fourNumbers? text).map fun bytes => .v4 (.ofBytes 4 bytes)

def ofV6? (text : List Char) : Option Address := (eightGroups? text).map fun bytes => .v6 (.ofBytes 16 bytes)

def parse? (text : String) : Option Address := ofV4? text.toList <|> ofV6? text.toList

/-! ## Writing -/

def dotted (bytes : Bytes) : String := ".".intercalate (bytes.map fun b => toString b.toNat)

def groups : Bytes → List Nat
  | high :: low :: rest => (256 * high.toNat + low.toNat) :: groups rest
  | _ => []

/-- Where the first of the longest runs of zeros starts, and its length. -/
def longestGap (groups : List Nat) : Nat × Nat :=
  (List.range groups.length).foldl (fun best start =>
    let run := ((groups.drop start).takeWhile (· = 0)).length
    if best.2 < run then (start, run) else best) (0, 0)

def joined (groups : List Nat) : String := ":".intercalate (groups.map fun g => String.ofList (Nat.toDigits 16 g))

/-- Whether an address of the sixth version stands for one of the fourth. -/
def isMapped (bytes : Bytes) : Bool := bytes.take 12 = List.replicate 10 0 ++ [0xFF, 0xFF]

def text : Address → String
  | .v4 b => dotted b.bytes
  | .v6 b =>
    if isMapped b.bytes then s!"::ffff:{dotted (b.bytes.drop 12)}"
    else
      let all := groups b.bytes
      let (start, length) := longestGap all
      if length ≤ 1 then joined all else s!"{joined (all.take start)}::{joined (all.drop (start + length))}"

end Address

end GatedRelay
