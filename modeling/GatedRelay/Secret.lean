import GatedRelay.Digest.Sha256
import GatedRelay.Text.Utf8

/-!
# Shared secrets and signatures

A secret is 32 bytes, usually the digest of a passphrase.  The signature of a byte string under a secret is the front
of the digest of both in a row.
-/

set_option autoImplicit false

namespace GatedRelay

abbrev Secret := Block 32

abbrev Signature := Block 6

namespace Secret

def ofPassphrase (passphrase : String) : Secret := Sha256.digest (Utf8.encode passphrase)

/-- A secret of zeros only counts as never set. -/
def isSet (secret : Secret) : Bool := secret.bytes.any (· != 0)

/-- The first six bytes of the digest of the secret followed by the text. -/
def sign (secret : Secret) (text : Bytes) : Signature :=
  Block.ofBytes 6 (Sha256.digest (secret.bytes ++ text)).bytes

/-- A claimed signature of any other width than six bytes is wrong. -/
def verifies (secret : Secret) (text signature : Bytes) : Bool := signature == (sign secret text).bytes

theorem verifies_sign (secret : Secret) (text : Bytes) : verifies secret text (sign secret text).bytes = true := by
  simp [verifies]

theorem verifies_iff {secret : Secret} {text : Bytes} {signature : Signature} :
    verifies secret text signature.bytes = true ↔ signature = sign secret text := by
  simp [verifies, Block.ext_iff]

end Secret

end GatedRelay
