import GatedRelay.Identity.Certificate
import GatedRelay.Identity.PrivateKey
import GatedRelay.Text.Armor

/-!
# Identities for encrypted connections

A relay proves who it is with a chain of certificates and the private key that belongs to it, each from a file of its
own.  The first certificate has to show the public key of the private one; the others are not looked at.
-/

set_option autoImplicit false

namespace GatedRelay

structure TextFile where
  path : String
  contents : Option String

inductive IdentityError where
  | incomplete
  | certificateUnread (path : String)
  | certificateMalformed (path : String)
  | noCertificate (path : String)
  | keyUnread (path : String)
  | unusable
  deriving DecidableEq

def IdentityError.message : IdentityError → String
  | incomplete => "secure WebSocket needs both a certificate and a private key"
  | certificateUnread path => s!"failed to read certificate {path}"
  | certificateMalformed path => s!"invalid certificate PEM in {path}"
  | noCertificate path => s!"no certificates found in {path}"
  | keyUnread path => s!"failed to read private key {path}"
  | unusable => "failed to create server TLS config"

structure Identity where
  /-- The certificates, that of the relay first. -/
  chain : List Bytes
  key : Armor.Section
  deriving DecidableEq

namespace Identity

def keyLabels : List String := ["RSA PRIVATE KEY", "PRIVATE KEY", "EC PRIVATE KEY"]

def certificates? (text : String) : Option (List Bytes) :=
  ((Armor.sections text).mapM id).map fun all => (all.filter (·.label = "CERTIFICATE")).map (·.data)

def key? (text : String) : Option Armor.Section :=
  ((Armor.sections text).find? fun s => s.all (·.label ∈ keyLabels)).join

def publicKey? (i : Identity) : Option PublicKey :=
  match i.key.label with
  | "RSA PRIVATE KEY" => PrivateKey.ofRsa? i.key.data
  | "PRIVATE KEY" => PrivateKey.ofWrapped? i.key.data
  | _ => PrivateKey.ofAnyPoint? i.key.data

def isUsable (i : Identity) : Bool :=
  i.publicKey?.any fun key => i.chain.head?.bind Certificate.subjectKey? = some key.bytes

def load (certificate key : TextFile) : Except IdentityError Identity := do
  let some text := certificate.contents | throw (.certificateUnread certificate.path)
  let some chain := certificates? text | throw (.certificateMalformed certificate.path)
  if chain.isEmpty then throw (.noCertificate certificate.path)
  let some key := key.contents.bind key? | throw (.keyUnread key.path)
  if Identity.isUsable ⟨chain, key⟩ then return ⟨chain, key⟩ else throw .unusable

/-- Load the identity that a relay is told to use.  It may do without one, but not with half of one. -/
def configured : Option TextFile → Option TextFile → Except IdentityError (Option Identity)
  | none, none => .ok none
  | some certificate, some key => (load certificate key).map some
  | _, _ => .error .incomplete

end Identity

end GatedRelay
