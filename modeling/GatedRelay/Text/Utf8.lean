import GatedRelay.Bytes.Basic

/-!
# UTF-8 with ill-formed input

Decoding cuts a byte string into pieces: whole characters, and maximal ill-formed pieces, which are a lead byte with
the continuation bytes that fitted it, or one byte that fits nowhere.  Two readings are built on the pieces: one shows
U+FFFD for every ill-formed piece and the other leaves them out.
-/

set_option autoImplicit false

namespace GatedRelay.Utf8

def encode (text : String) : Bytes := text.toList.flatMap String.utf8EncodeChar

/-- A character that lacks continuation bytes: the bounds of the next byte, how many are missing, the bits so far. -/
structure Pending where
  low : UInt8
  high : UInt8
  missing : Nat
  bits : Nat
  deriving DecidableEq

inductive Step where
  | whole (c : Char)
  | more (p : Pending)
  | illFormed
  deriving DecidableEq

/-- The first byte of a character.  Four lead bytes narrow the byte after them, so that no character is written
longer than needed, none is a surrogate and none lies beyond U+10FFFF. -/
def first (b : UInt8) : Step :=
  if b < 0x80 then .whole (Char.ofNat b.toNat)
  else if b < 0xC2 then .illFormed
  else if b < 0xE0 then .more ⟨0x80, 0xBF, 1, b.toNat % 32⟩
  else if b = 0xE0 then .more ⟨0xA0, 0xBF, 2, 0⟩
  else if b = 0xED then .more ⟨0x80, 0x9F, 2, 13⟩
  else if b < 0xF0 then .more ⟨0x80, 0xBF, 2, b.toNat % 16⟩
  else if b = 0xF0 then .more ⟨0x90, 0xBF, 3, 0⟩
  else if b < 0xF4 then .more ⟨0x80, 0xBF, 3, b.toNat % 8⟩
  else if b = 0xF4 then .more ⟨0x80, 0x8F, 3, 4⟩
  else .illFormed

def Pending.next (p : Pending) (b : UInt8) : Step :=
  if p.low ≤ b ∧ b ≤ p.high then
    let bits := 64 * p.bits + b.toNat % 64
    if p.missing = 1 then .whole (Char.ofNat bits) else .more ⟨0x80, 0xBF, p.missing - 1, bits⟩
  else .illFormed

def Step.pieces (s : Step) (rest : Option Pending → List (Option Char)) : List (Option Char) :=
  match s with
  | .whole c => some c :: rest none
  | .more p => rest (some p)
  | .illFormed => none :: rest none

/-- The pieces of a byte string, with `none` for an ill-formed one.  A byte that does not continue the character in
progress ends it and is read again as a first byte. -/
def pieces : Option Pending → Bytes → List (Option Char)
  | none, [] => []
  | some _, [] => [none]
  | none, b :: rest => (first b).pieces fun state => pieces state rest
  | some p, b :: rest =>
    match p.next b with
    | .illFormed => none :: (first b).pieces fun state => pieces state rest
    | step => step.pieces fun state => pieces state rest

def decode (b : Bytes) : List (Option Char) := pieces none b

/-- The text with U+FFFD in the place of every ill-formed piece. -/
def decodeReplacing (b : Bytes) : String := String.ofList ((decode b).map (·.getD '\uFFFD'))

def decodeSkipping (b : Bytes) : String := String.ofList ((decode b).filterMap id)

end GatedRelay.Utf8
