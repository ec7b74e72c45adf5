import GatedRelay.Bytes.Nested

/-!
# Certificates

A certificate is looked at for the public key of its subject, and for being well-formed.  Extensions that are understood
may stand there once; others are passed over, unless they are critical.
-/

set_option autoImplicit false

namespace GatedRelay.Certificate

open Nested (Item)

structure Extension where
  name : Bytes
  critical : Bool := false
  data : Bytes
  deriving DecidableEq

def extension? (i : Item) : Option Extension := do
  let name :: rest ← i.inside? Nested.sequence | none
  let (critical, data) ← match rest with
    | [data] => some (false, data)
    | [mark, data] => mark.truth?.map (·, data)
    | _ => none
  if name.tag = Nested.name ∧ data.tag = Nested.octets then some ⟨name.value, critical, data.value⟩ else none

def standard : Bytes := [0x55, 0x1D]

def keyUsage : UInt8 := 15

/-- The last part of the name of an extension that is understood: key usage, other names of the subject, basic
constraints, name constraints, revocation lists, extended key usage. -/
def understood? (e : Extension) : Option UInt8 :=
  match e.name with
  | [a, b, n] => if [a, b] = standard ∧ n ∈ [keyUsage, 17, 19, 30, 31, 37] then some n else none
  | _ => none

/-- Whether the data of an extension is a sequence, as it is for all that are understood but one. -/
def hasForm (e : Extension) (n : UInt8) : Bool :=
  n = keyUsage || (Nested.only? e.data).any (·.tag = Nested.sequence)

def accepts (extensions : List Extension) : Bool :=
  (extensions.filterMap understood?).Nodup
    && extensions.all fun e =>
      match understood? e with
      | some n => hasForm e n
      | none => !e.critical

def areExtensions (items : List Item) : Bool :=
  match items with
  | [] => true
  | [i] =>
    match i.inside? (Nested.part 3) with
    | some [all] => ((all.inside? Nested.sequence).bind (·.mapM extension?)).any accepts
    | _ => false
  | _ => false

def subjectKey? (data : Bytes) : Option Bytes := do
  let [content, scheme, signature] ← Nested.sequence? data | none
  let version :: serial :: scheme' :: issuer :: validity :: subject :: key :: rest ← content.inside? Nested.sequence
    | none
  let tags := [scheme, issuer, validity, subject, key].map (·.tag)
  if version = ⟨Nested.part 0, [Nested.integer, 1, 2]⟩ ∧ serial.tag = Nested.integer ∧ scheme' = scheme
      ∧ tags.all (· = Nested.sequence) ∧ (signature.bits? Nested.bits).isSome ∧ areExtensions rest then
    some key.value
  else none

end GatedRelay.Certificate
