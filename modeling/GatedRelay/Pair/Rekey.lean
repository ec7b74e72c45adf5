import GatedRelay.Pair.Basic

/-!
# Loading and replacing the key

The key is read from the store when the first engineer arrives.  If its secret is the one already held, the clock that
is ahead stays.  An engineer that signs with the key may replace it: the new secret is stored first, and only when that
has succeeded does the pair use it and forget what the gates learned under the old one.
-/

set_option autoImplicit false

namespace GatedRelay.Pair

/-- The key of a stored record, with a clock that is not behind the previous one of the same secret. -/
def renewedKey (previous : Option SigningKey) (stored : Option Credential) : Option SigningKey :=
  match stored.bind SigningKey.ofCredential?, previous with
  | some k, some q => some (if k.secret = q.secret then k.observe q.clock else k)
  | key, _ => key

/-- Read the key again.  When the store does not answer the key stays. -/
def reloadKey (p : Pair) (m : Moment) : Pair :=
  match p.store.load p.recordPort with
  | .error _ => p.log .keyNotLoaded
  | .ok stored => { p with key := (renewedKey p.key stored).map (·.observe m.clock) }

def rotateKey (p : Pair) (m : Moment) (request : SetupSigning) : Pair :=
  match p.store.write (.setSigningKey p.recordPort request.secret request.initialTimestamp) with
  | (.error _, store) => { p with store := store }.log .keyNotStored
  | (.ok _, store) =>
    { p with
      store := store
      key := some ((SigningKey.load request.secret request.initialTimestamp).observe m.clock)
      savedClock := request.initialTimestamp
      slots := p.slots.resetGates }.log .keyReplaced

end GatedRelay.Pair
