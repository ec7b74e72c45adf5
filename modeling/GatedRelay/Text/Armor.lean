import GatedRelay.Text.Base64

/-!
# Armored text

Binary data in a text file stands in sections, between a line that begins one and a line that ends it, written in base
64.  Text outside of sections is skipped, and so are sections with labels that nobody asks for.
-/

set_option autoImplicit false

namespace GatedRelay.Armor

structure Section where
  label : String
  data : Bytes
  deriving DecidableEq

def labels : List String :=
  ["CERTIFICATE", "PUBLIC KEY", "RSA PRIVATE KEY", "PRIVATE KEY", "EC PRIVATE KEY", "X509 CRL", "CERTIFICATE REQUEST",
    "ECHCONFIG"]

def endsLine (c : Char) : Bool := c = '\n' || c = '\r'

def lines : List Char → List (List Char)
  | [] => []
  | c :: rest =>
    if endsLine c then [c] :: lines rest
    else
      match lines rest with
      | [] => [[c]]
      | line :: more => (c :: line) :: more

def beginning : List Char := "-----BEGIN ".toList

/-- The label of a line that begins a section.  Dashes, blanks and line ends close the line; the dashes must be five,
and the label reaches up to the first of them. -/
def label? (line : List Char) : Option String :=
  let close := (line.reverse.takeWhile fun c => c = '-' || c = ' ' || endsLine c).reverse
  let label := line.take (line.length - (close.dropWhile (· ≠ '-')).length)
  if close.count '-' = 5 then some (String.ofList (label.drop beginning.length)) else none

def ending (label : String) : List Char := s!"-----END {label}-----".toList

/-- Read lines inside or outside of a section.  A line that begins a section inside of another gives it a new label and
keeps its text.  Nothing follows a fault, which is shown as a missing section. -/
def scan (label : Option String) (body : List Char) : List (List Char) → List (Option Section)
  | [] => if label.isSome then [none] else []
  | line :: rest =>
    if beginning.isPrefixOf line then
      match label? line with
      | none => [none]
      | some label => scan (some label) body rest
    else
      match label with
      | none => scan none body rest
      | some name =>
        if (ending name).isPrefixOf line then
          if name ∈ labels then
            match Base64.decode? body with
            | some data => some ⟨name, data⟩ :: scan none [] rest
            | none => [none]
          else scan none [] rest
        else scan label (body ++ line) rest

/-- The sections of a text, up to the first fault. -/
def sections (text : String) : List (Option Section) := scan none [] (lines text.toList)

end GatedRelay.Armor
